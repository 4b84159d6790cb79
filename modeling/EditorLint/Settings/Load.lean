import EditorLint.Settings.Config
import EditorLint.Settings.Environment
import EditorLint.Settings.File

/-!
# Loading the configuration

A setting comes from the first source that makes it: the caller, the environment, the
user's file in the workspace, the global file, the default.  Sources are laid over one
another section by section, so that each may set some fields of a section.

Embedded: `load_config`, `load_settings` (`loadLinter`), and `_YamlSource` with
`settings_customise_sources`.  Assumed: the library for settings lays the mappings of its sources
over one another, the first source on top; and the path of the global file, which the program
expands when it starts, is expanded in the environment in which the configuration is loaded.
-/

namespace EditorLint.Config

def userFile (workspace : Path) : Path := workspace.join (Path.ofString ".nanolint/config.yaml")

/-- The global file, as seen from a home directory. -/
def globalFile : Path := Path.ofString "~/.config/nanolint/config.yaml"

/-- A mapping laid over the value of a file.  A value of another kind bears at most an
empty mapping. -/
def layOver (base upper : Datum) : Except Failure Datum :=
  match base.opened, upper with
  | .mapping es, .mapping more => .ok (.mapping (Entries.overlay es more))
  | .list items, .mapping more => if more.isEmpty then .ok (.list items) else .error .listIndex
  | .set members, .mapping more =>
    match more with
    | [] => .ok (.set members)
    | (key, _) :: _ =>
      if members.any (·.sameKey key) then .error (.notSubscriptable "set")
      else .error (.notAssignable "set")
  | .mapping _, d | .list _, d | .set _, d => .error (.missingOperation d.kind "items")
  | d, _ => .error (.missingOperation d.kind "copy")

def fileSections (m : Machine) (workspace : Path) : Except Failure Datum := do
  let user ← ConfigFile.loadUser m (userFile workspace)
  let global ← ConfigFile.load m (← m.home.expand globalFile)
  layOver global (.mapping user.sections)

def sectionNames : List String := Environment.sections.map (·.name)

/-- The name of the section that a key names, in any case. -/
def sectionNamed? (key : Datum) : Option String :=
  key.text?.bind fun name => sectionNames.find? name.toLower.isString

/-- The overrides of the caller: the sections first, and then the rest. -/
def callerSections (overrides : Entries) : Entries :=
  let section? (name : String) : Option (Datum × Datum) :=
    let named := overrides.filter fun (key, _) => sectionNamed? key == some name
    ((named.find? fun (key, _) => key.sameKey (.string name)) <|> named.head?).map
      fun (_, d) => (.string name, d)
  sectionNames.filterMap section? ++ overrides.filter fun (key, _) => (sectionNamed? key).isNone

/-- A finding for each entry that is no section. -/
def strangers (es : Entries) : List Issue :=
  (es.filter fun (key, _) => !sectionNames.any fun name => key.sameKey (.string name)).map
    fun (key, d) => ⟨"extra_forbidden", [key.display], "Extra inputs are not permitted", d⟩

/-- The configuration in the entries of all sources, where nothing but sections is
allowed. -/
def checkAll (home : Home) (es : Entries) : Checked Config :=
  match check home es, strangers es with
  | .broken f, _ => .broken f
  | .valid c, [] => .valid c
  | .valid _, more => .invalid more
  | .invalid issues, more => .invalid (issues ++ more)

def combined (m : Machine) (files : Datum) (overrides : Entries) : Except Failure Config := do
  let environment ← Environment.read m
  let upper := Entries.overlay environment (callerSections overrides)
  match files with
  | .mapping es =>
    let all := Entries.overlay es upper
    if ConfigFile.hasTextKeys all then (checkAll m.home all).toExcept.mapError ConfigFile.rejection
    else throw .textKeysOnly
  | d => throw (.missingOperation d.kind "items")

/-- The first setting that a linter cannot run without and that is not made. -/
def missing? (c : Config) : Option String :=
  let isMade (path : Option Text) : Bool := path.any (!·.isEmpty)
  if !isMade c.linter.eslintPath then some "eslint_path"
  else if !isMade c.linter.shellPath then some "shell_path"
  else none

/-- The configuration for a workspace, by default the working directory. -/
def load (m : Machine) (workspace : Option Path) (requireLinter : Bool) (overrides : Entries) :
    Except Failure Config := do
  let files ← fileSections m (workspace.getD m.cwd)
  let config ← combined m files overrides
  if requireLinter then
    if let some name := config.missing? then throw (.fault (.configMissing ("linter." ++ name)))
  return config

def loadLinter (m : Machine) (workspace : Option Path) : Except Failure LinterSettings :=
  return (← load m workspace true []).linter

end EditorLint.Config
