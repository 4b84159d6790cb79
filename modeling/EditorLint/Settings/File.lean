import EditorLint.Machine
import EditorLint.Settings.User
import EditorLint.Yaml.Value

/-!
# Configuration files

A configuration file holds one YAML document.  A file that is not there says nothing,
and neither does one whose document is null, false, zero or empty.

`load` gives the value of any file; `loadUser` takes it as the user's configuration,
which has to be a mapping with text keys whose settings pass their checks.

Embedded: `_load_yaml` (`load`) and `load_user_config` (`loadUser`).
-/

namespace EditorLint.ConfigFile

/-- The failure that an error in the document of a file ends in. -/
def refusal (path : Path) : Yaml.Error → Failure
  | .scalar e => .scalar e
  | .undecodable f => .ofUtf8 f
  | .tooDeep => .tooDeep
  | e => .fault (.configParse path.text (e.text path.text))

/-- The value of the document that a file holds. -/
def document (path : Path) (bytes : List UInt8) : Except Failure Datum := do
  (Yaml.readValue (.ofBytes bytes)).mapError (refusal path)

/-- The value of a file. -/
def load (m : Machine) (path : Path) : Except Failure Datum := do
  if !(← m.probe path) then return .mapping []
  let d ← document path (← m.files.read m.cwd path)
  return if d.isTruthy then d else .mapping []

/-- The failure that findings about settings end in: the first one counts, and its value
has to have a literal. -/
def rejection : Failure → Failure
  | .invalid (issue :: _) =>
    if issue.input.hasLongInt then .longInteger
    else .fault (.configValue (Text.join "." issue.loc) issue.input issue.message)
  | f => f

/-- The failure that a file without a mapping at its top ends in. -/
def noMapping (path : Path) : Failure :=
  .fault (.configParse path.text "expected a mapping at top level")

def hasTextKeys (es : Entries) : Bool := es.all fun (key, _) => key.text?.isSome

def userOf (path : Path) (d : Datum) : Except Failure UserConfig :=
  match d.opened with
  | .mapping es =>
    if hasTextKeys es then (UserConfig.check es).toExcept.mapError rejection
    else .error .textKeysOnly
  | _ => .error (noMapping path)

/-- The user's configuration in a file. -/
def loadUser (m : Machine) (path : Path) : Except Failure UserConfig := do userOf path (← load m path)

end EditorLint.ConfigFile
