import EditorLint.Datum.Overlay
import EditorLint.Json.Read
import EditorLint.Machine

/-!
# Settings in the environment

A variable `NANOLINT__SECTION` holds a section as JSON, and `NANOLINT__SECTION__FIELD`
holds one field of it, which is laid over the section.  Case does not matter.  The value
of a field is a text, except that a field which is a list is written as JSON.  Further
double underscores lead into a field, as far as nothing else stands there.

Embedded: the source of the settings class that reads the environment, with the prefix and the
delimiter that `_make_settings_class` gives it.
-/

namespace EditorLint.Environment

/-- A section: its name, its fields, and those of them that are written as JSON. -/
structure Section where
  name : String
  fields : List String
  lists : List String

def logging : Section := ⟨"logging", ["level", "outputs"], ["outputs"]⟩

def linter : Section where
  name := "linter"
  fields := ["eslint_path", "shell_path", "config_names", "fix_on_save", "timeout_sec",
    "save_delay_sec", "max_ascent"]
  lists := ["config_names"]

def sections : List Section := [logging, linter]

/-- What parts the name of a section, and of a field, from what is before it. -/
def delimiter : Text := "__"

/-- How the variables of a section begin, in lower case. -/
def Section.variableName (s : Section) : Text := "nanolint__" ++ s.name

def valueAt (name : Text) (table : List (Text × Text)) : Option Text :=
  (table.find? fun (n, _) => n == name).map (·.2)

/-- A table with a value at a name, in place if the name is there. -/
def withValue (table : List (Text × Text)) (name value : Text) : List (Text × Text) :=
  match table with
  | [] => [(name, value)]
  | (n, v) :: rest => if n == name then (n, value) :: rest else (n, v) :: withValue rest name value

/-- The variables by their names in lower case; of several the last counts. -/
def lowered (environment : List (Text × Text)) : List (Text × Text) :=
  environment.foldl (fun table (name, value) => withValue table name.toLower value) []

/-- The value that a variable of a section writes as JSON.  Only a text that nests too
deep to be read is not the fault of the section. -/
def jsonValue (s : Section) (value : Text) : Except Failure Datum :=
  match Json.read value.shown with
  | .ok d => .ok d
  | .error (.depth object) => .error (.nestedTooDeep object)
  | .error _ => .error (.variableUnreadable s.name)

/-- Entries with a value at the end of a way of keys.  Mappings are made on the way;
where something else stands in it, nothing is put. -/
def put (value : Datum) (last : Text) : (way : List Text) → Entries → Entries
  | [], es => Entries.insert (.text last) value es
  | key :: way, es =>
    match Entries.get? (.text key) es with
    | none => Entries.insert (.text key) (.mapping (put value last way [])) es
    | some (.mapping inner) => Entries.insert (.text key) (.mapping (put value last way inner)) es
    | some _ => es

/-- The value of a field of a section: JSON where the field is a list, unless nothing is
written. -/
def fieldValue (s : Section) (name value : Text) : Except Failure Datum :=
  if !value.isEmpty && s.lists.any name.isString then jsonValue s value else .ok (.text value)

/-- Entries with the value of a variable that names a field of the section. -/
def addField (s : Section) (es : Entries) (name value : Text) : Except Failure Entries := do
  let start := s.variableName ++ delimiter
  if !start.isPrefixOf name then return es
  let way := Text.splitBy delimiter (name.drop start.length)
  let last := way.getLastD []
  let d ← if way.length = 1 then fieldValue s last value else pure (.text value)
  return put d last way.dropLast es

def fields (s : Section) (table : List (Text × Text)) : Except Failure Entries :=
  table.foldlM (fun es (name, value) => addField s es name value) []

/-- Entries with the names of fields as they are spelled in the section. -/
def renamed (s : Section) (es : Entries) : Entries :=
  Entries.ofAssignments (es.map fun (key, value) =>
    let spelled := key.text?.bind fun name => s.fields.find? name.toLower.isString
    (match spelled with
      | some name => .string name
      | none => key, value))

def sectionValue (s : Section) (table : List (Text × Text)) : Except Failure (Option Datum) := do
  match valueAt s.variableName table with
  | none =>
    let es ← fields s table
    return if es.isEmpty then none else some (.mapping (renamed s es))
  | some value =>
    match ← jsonValue s value with
    | .null => return none
    | .mapping es => return some (.mapping (renamed s (Entries.overlay es (← fields s table))))
    | d => return some d

/-- The sections that the variables of a machine give. -/
def read (m : Machine) : Except Failure Entries := do
  let table := lowered m.environment
  let given ← sections.filterMapM fun s => do
    return (← sectionValue s table).map fun d => (Datum.string s.name, d)
  return given

end EditorLint.Environment
