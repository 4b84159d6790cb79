import EditorLint.Command.Configuration
import EditorLint.Command.Values
import EditorLint.Json.Write

/-!
# Linting a file

The diagnostics of a file, one on a line, or the whole outcome as JSON.  The status is 0
without errors, 1 with errors, and 2 when the linter could not be run.

Embedded: `lint_command`.
-/

namespace EditorLint.Lint

def spec : CommandSpec where
  words := ["nanolint", "lint"]
  about :=
    ["Lint FILE with eslint using its nearest eslint config.",
      "Exits 0 when there are no errors, 1 when eslint reported errors, "
        ++ "and 2 when eslint could not be run."]
  options :=
    [⟨["--json"], .nothing, "Output as JSON"⟩, Command.workspaceOption, Command.helpOption]
  argument := some Command.fileArgument
  below := []

/-- An outcome as the entries of an object. -/
def record (path : Path) (o : Outcome) : Entries :=
  [(.string "path", .text path.text), (.string "status", .string o.status),
    (.string "config", Diagnostic.optional (fun p => .text p.text) o.config),
    (.string "error", Diagnostic.optional .text o.error),
    (.string "diagnostics", .list (o.diagnostics.map fun d => .mapping d.fields))]

def json (path : Path) (o : Outcome) : Text := Json.write (.mapping (record path o))

/-- Shows the outcome of a document to a reader. -/
def display (path : Path) (o : Outcome) : Command Unit := do
  match o, o.config with
  | .failed reason _, _ => Command.complain ((← get).log.failureMessage (some reason))
  | _, none => Command.complain ("No eslint config found for " ++ path.text)
  | _, some _ => o.diagnostics.forM fun d => Command.print (d.render path)

def status (o : Outcome) : Nat :=
  match o with
  | .failed _ _ => 2
  | _ => if o.hasErrors then 1 else 0

/-- What the user is told about an outcome, and the status that it stands for. -/
def shown (asJson : Bool) (path : Path) (o : Outcome) : Command Unit := do
  if asJson then Command.print (json path o) else display path o
  if status o ≠ 0 then Command.exit (status o)

def run (verbose : Bool) (file : Path) (asJson : Bool) (workspace : Option Path) : Command Unit := do
  let c ← Command.configuration verbose workspace true
  let d ← Command.openDocument file
  let o ← Command.outcome (← Command.newRequest) c.linter .diagnose d
  shown asJson d.path o

def call (verbose : Bool) (words : List Text) : Command Unit := do
  let a ← Command.arguments spec words
  let workspace ← Command.directory? spec a "--workspace"
  let file ← Command.argument spec Command.fileArgument a
  run verbose file (a.has "--json") workspace

end EditorLint.Lint
