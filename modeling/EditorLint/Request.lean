import EditorLint.Machine
import EditorLint.Runner
import EditorLint.Search

/-!
# Requests

What a host asks for a document: to diagnose it, to provide its issues, to refresh what
is on show, to fix it, or to look at it before it is saved.  Every request loads the
settings, searches the configuration and runs the linter.  A fix sends the text of the
document, anything else has the file linted.

Nothing that goes wrong on the way gets out of `begin` and `proceed`, except what the
loading of settings raises besides faults, and what the host raises when it is told.

Embedded: `diagnose`, `provide_issues`, `fix` and `on_will_save` of `LintOps` up to the end of
the run, with `_load_settings` (`settings`), `_run` (`launch`, `proceed`, `unforeseen`) and
`_report`.
-/

namespace EditorLint

/-- What is asked for. -/
inductive Task where
  | diagnose
  | provideIssues
  | refresh
  | fix (duringSave : Bool)
  | willSave
  deriving DecidableEq, Repr

namespace Task

/-- Whether the text of the document may be changed. -/
def isFix : Task → Bool
  | fix _ | willSave => true
  | _ => false

/-- Whether a changed document is saved a little later. -/
def savesLater : Task → Bool
  | fix duringSave => duringSave
  | willSave => true
  | _ => false

theorem savesLater_iff (t : Task) : t.savesLater = true ↔ t = .willSave ∨ t = .fix true := by
  cases t <;> simp [savesLater]

def mode (t : Task) : RunMode := if t.isFix then .fixDryRun else .diagnose

end Task

namespace Request

def logger : String := "nanolint.lint.ops"

def pathDetail (path : Path) : Entries := [Fault.detail "path" (.text path.text)]

def pathField (path : Path) : Datum × Datum := Log.field "path" (.text path.text)

/-- The outcome of a request whose settings cannot be loaded. -/
def unavailable : Outcome := .failed "Settings unavailable" none

/-- The settings, if they can be loaded.  A fault is logged and told to the host; any
other failure goes on. -/
def settings (h : Handler) (loaded : Except Failure LinterSettings) : Action (Option LinterSettings) :=
  match loaded with
  | .ok s => return some s
  | .error (.fault f) => do
    Action.log (.plain .error logger "lint_settings_unavailable" [Log.field "error" (.text f.display)])
    h.report f
    return none
  | .error e => Action.fail e

/-- The fault that anything unforeseen ends a request with: logged, told to the host, and
the reason of the outcome. -/
def unforeseen (h : Handler) (path : Path) (f : Failure) : Action Outcome := do
  let fault := Fault.unexpected f.display (pathDetail path)
  Action.log (.ofFailure logger "lint_request_failed" [pathField path] f)
  h.report fault
  return .failed fault.message none

/-- The configuration that applies to the document at a path. -/
def located (m : Machine) (s : LinterSettings) (path : Path) : Except Failure (Option Path) :=
  Search.locateBy m.probe m.cwd path.parent (Search.spec s.configNames s.maxAscent)

/-- The text that the linter is given in place of the file. -/
def input (task : Task) (text : Text) : Option Text := if task.isFix then some text else none

/-- Searches the configuration of a document and starts the linter; without a
configuration there is nothing to show. -/
def launch (h : Handler) (m : Machine) (s : LinterSettings) (path : Path) (mode : RunMode)
    (text : Option Text) (child : Child) : Action (Progress Runner.Talk Outcome) := do
  match ← Action.ofExcept (located m s path) with
  | none =>
    Action.log (.plain .debug logger "lint_config_not_found" [pathField path])
    return .done (.empty none)
  | some config => Runner.start h s config path mode text child

/-- The first part of a request, up to the wait for the child. -/
def begin (h : Handler) (m : Machine) (loaded : Except Failure LinterSettings) (task : Task)
    (path : Path) (text : Text) (child : Child) :
    Action (Progress (LinterSettings × Runner.Talk) Outcome) := do
  match ← settings h loaded with
  | none => return .done unavailable
  | some s =>
    if task = .willSave ∧ !s.fixOnSave then return .done (.empty none)
    else
      let launched := Action.recover (launch h m s path task.mode (input task text) child)
        fun f => do return .done (← unforeseen h path f)
      match ← launched with
      | .waiting t => return .waiting (s, t)
      | .done outcome => return .done outcome

/-- The second part of a request, from the end of the talk with the child on. -/
def proceed (h : Handler) (path : Path) (t : Runner.Talk) (e : TalkEnd) : Action Outcome :=
  Action.recover (Runner.resume h t e) (unforeseen h path)

/-- A whole request, with nothing else happening meanwhile. -/
def run (h : Handler) (m : Machine) (loaded : Except Failure LinterSettings) (task : Task)
    (path : Path) (text : Text) (child : Child) : Action Outcome := do
  match ← begin h m loaded task path text child with
  | .done outcome => return outcome
  | .waiting (_, t) => do
    let e := child.talk t.timeout
    Runner.putDown (.talk e) child.exited
    proceed h path t e

end Request

end EditorLint
