import EditorLint.Command.Configuration
import EditorLint.Command.Values
import EditorLint.Fix

/-!
# Fixing a file

The file is given the text that the linter proposes, or, for a check, the status says
whether it would be.

Embedded: `fix_command`.
-/

namespace EditorLint.Fix

def spec : CommandSpec where
  words := ["nanolint", "fix"]
  about :=
    ["Apply eslint's fixes to FILE.",
      "With --check nothing is written and the exit code is 1 if FILE would change."]
  options :=
    [⟨["--check"], .nothing, "Report whether fixes exist without writing"⟩, Command.workspaceOption,
      Command.helpOption]
  argument := some Command.fileArgument
  below := []

/-- The document with its fixes, if there are any. -/
def fixed (settings : LinterSettings) (d : FileDocument) : Command (Option OpenDocument) := do
  let id ← Command.newRequest
  let o ← Command.outcome id settings (.fix false) d
  Command.perform ((amend .none (.file d) o).forRequest id)

def save (d : OpenDocument) : Command Unit := do
  let m := (← get).machine
  let _ ← Command.store (d.save m.files m.cwd)

/-- What is done with the fixed document, if there is one: it is saved, and a check only tells of
it. -/
def settle (check : Bool) (d : FileDocument) : Option OpenDocument → Command Unit
  | none => Command.print (d.path.text ++ ": nothing to fix")
  | some changed =>
    if check then do
      Command.print (d.path.text ++ ": would be fixed")
      Command.exit 1
    else do
      save changed
      Command.print (d.path.text ++ ": fixed")

/-- Fixes a file, or only checks whether there is something to fix. -/
def run (verbose : Bool) (file : Path) (check : Bool) (workspace : Option Path) : Command Unit := do
  let c ← Command.configuration verbose workspace true
  let d ← Command.openDocument file
  settle check d (← fixed c.linter d)

def call (verbose : Bool) (words : List Text) : Command Unit := do
  let a ← Command.arguments spec words
  let workspace ← Command.directory? spec a "--workspace"
  let file ← Command.argument spec Command.fileArgument a
  run verbose file (a.has "--check") workspace

end EditorLint.Fix
