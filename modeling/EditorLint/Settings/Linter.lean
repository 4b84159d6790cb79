import EditorLint.Diagnostic
import EditorLint.Settings.Check

/-!
# Linter settings

How the linter is found and run.  A configuration name is the bare name of a file;
the time limit is positive; the delay of a deferred save and the number of steps of
a search are not negative.

Embedded: `LinterSettings` with its validators.
-/

namespace EditorLint

/-- How the linter is found and run. -/
structure LinterSettings where
  eslintPath : Option Text
  shellPath : Option Text
  configNames : List Text
  fixOnSave : Bool
  timeout : Float
  saveDelay : Float
  maxAscent : Int

namespace LinterSettings

def defaults : LinterSettings where
  eslintPath := none
  shellPath := none
  configNames := []
  fixOnSave := false
  timeout := 30.0
  saveDelay := 0.1
  maxAscent := 100

/-- Whether a name is the bare name of a file. -/
def isBareName (name : Text) : Bool :=
  !name.isEmpty && !name.any (fun c => c.isChar '/' || c.isChar '\\')

def checkNames : Check.Loc → Datum → Checked (List Text) :=
  Check.ruled (Check.list Check.text) fun names =>
    (names.find? (!isBareName ·)).map ("Config name must be a bare filename: " ++ Literal.quote ·)

def checkTimeout : Check.Loc → Datum → Checked Float :=
  Check.ruled Check.float fun x =>
    if x ≤ 0 then some ("Timeout must be positive, got " ++ Text.ofFloat x) else none

def checkSaveDelay : Check.Loc → Datum → Checked Float :=
  Check.ruled Check.float fun x =>
    if x < 0 then some ("Save delay must not be negative, got " ++ Text.ofFloat x) else none

def checkMaxAscent : Check.Loc → Datum → Checked Int :=
  Check.ruled Check.int fun n =>
    if n < 0 then some ("Max ascent must not be negative, got " ++ Text.ofInt n) else none

/-- The settings in the entries of a section; entries of other names do not matter. -/
def check (loc : Check.Loc) (es : Entries) : Checked LinterSettings :=
  let paths := Checked.both
    (Check.field loc es "eslint_path" none (Check.nullable Check.text))
    (Check.field loc es "shell_path" none (Check.nullable Check.text))
  let names := Check.field loc es "config_names" [] checkNames
  let onSave := Check.field loc es "fix_on_save" false Check.truth
  let times := Checked.both
    (Check.field loc es "timeout_sec" defaults.timeout checkTimeout)
    (Check.field loc es "save_delay_sec" defaults.saveDelay checkSaveDelay)
  let ascent := Check.field loc es "max_ascent" defaults.maxAscent checkMaxAscent
  (paths.both (names.both (onSave.both (times.both ascent)))).map
    fun ((eslint, shell), names, onSave, (timeout, delay), ascent) =>
      ⟨eslint, shell, names, onSave, timeout, delay, ascent⟩

def entries (s : LinterSettings) : Entries :=
  [(.string "eslint_path", Diagnostic.optional .text s.eslintPath),
    (.string "shell_path", Diagnostic.optional .text s.shellPath),
    (.string "config_names", .list (s.configNames.map .text)),
    (.string "fix_on_save", .bool s.fixOnSave), (.string "timeout_sec", .float s.timeout),
    (.string "save_delay_sec", .float s.saveDelay), (.string "max_ascent", .int s.maxAscent)]

end LinterSettings

end EditorLint
