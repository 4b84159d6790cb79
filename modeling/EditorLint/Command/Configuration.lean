import EditorLint.Command.Terminal
import EditorLint.Document
import EditorLint.Request
import EditorLint.Settings.Load

/-!
# What commands have in common

Most commands load the configuration of a workspace first, and set the log up as it says.
A configuration that cannot be used is the user's to mend, so the user is told why.

Embedded: `load_cli_config` with `_verbose_requested`, and what `diagnose` and `fix` are to a
command.
-/

namespace EditorLint.Command

/-- What to do about a setting that is not made. -/
def hint (f : Fault) : Text :=
  if f.code = .configMissing then
    "\nRun 'nanolint init' or set NANOLINT__LINTER__ESLINT_PATH / SHELL_PATH."
  else []

/-- Gives up with an error that the user can mend. -/
def giveUp {α : Type} (message : Text) : Command α := do
  complain ("Error: " ++ message)
  exit 1

/-- Loads the configuration of a workspace, and sets the log up. -/
def configuration (verbose : Bool) (workspace : Option Path) (requireLinter : Bool) :
    Command Config := do
  match Config.load (← get).machine workspace requireLinter [] with
  | .ok c => do
    configureLog c.logging verbose
    return c
  | .error (.fault f) => giveUp (f.message ++ hint f)
  | .error f => throw (.failure f)

def openDocument (file : Path) : Command FileDocument := do
  let m := (← get).machine
  ofExcept (FileDocument.openFile m.files m.cwd file "utf-8")

def newRequest : Command Text := do
  let t ← get
  let (id, correlation) := t.correlation.bind none
  set { t with correlation := correlation.clear }
  return id

/-- What a request for a document ends with.  Faults go to the log. -/
def outcome (id : Text) (settings : LinterSettings) (task : Task) (d : FileDocument) :
    Command Outcome := do
  let t ← get
  let child := t.children.headD .absent
  perform ((Request.run .none t.machine (.ok settings) task d.path d.text child).forRequest id)

end EditorLint.Command
