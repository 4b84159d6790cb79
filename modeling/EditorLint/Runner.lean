import EditorLint.Action
import EditorLint.Invocation
import EditorLint.Outcome

/-!
# Running the linter

A run starts a child, gives it the text, and waits for its answer as long as the settings
allow.  What the child wrote decides the outcome: anything on the error stream is a
failure, whatever else there is, and otherwise the output has to be a report.

A run has two parts, before and after the wait, since other things happen meanwhile.
`start` ends with a talk or, if there is nothing to wait for, an outcome; `resume` goes on
when the talk has ended.  In between, a child that ran out of time is killed and reaped,
unless its status is set already; so is one whose request is cancelled.  Killing and reaping
are two steps: other things happen while a killed child is waited for, too.

Embedded: `run_process` (`spawn`, `feed`, `collect`, `putDown`), and `LintRunner.run` (`start`,
`resume`, `conclude`) with `_fail` (`failed`) and `_log_error` (`failedRecord`).  Assumed: the time
that a child took counts as none in the log.
-/

namespace EditorLint

/-- An action that may have to wait for a child. -/
inductive Progress (τ α : Type) where
  | waiting (talk : τ)
  | done (a : α)

namespace Runner

def logger : String := "nanolint.lint.runner"

/-- A run whose child is being talked to. -/
structure Talk where
  invocation : Invocation
  config : Path
  timeout : Float

def startedRecord (i : Invocation) : Log.Record :=
  .plain .info logger "lint_command_started"
    [Log.field "command" (.text i.display), Log.field "cwd" (.text i.cwd.text)]

def statusDatum (o : ProcessOutput) : Datum := Diagnostic.optional .int o.status

/-- The record of a child that has answered; the time it took counts as none. -/
def finishedRecord (i : Invocation) (o : ProcessOutput) : Log.Record :=
  .plain .debug logger "lint_command_finished"
    [Log.field "command" (.text i.display), Log.field "returncode" (statusDatum o),
      Log.field "stdout" (.text (ProcessOutput.decoded o.stdout)),
      Log.field "stderr" (.text (ProcessOutput.decoded o.stderr)),
      Log.field "duration_seconds" (.float 0.0)]

/-- The record of a fault that the host does not want to know. -/
def failedRecord (f : Fault) : Log.Record :=
  .plain .error logger "lint_command_failed"
    [Log.field "error" (.string f.code.name), Log.field "message" (.text f.message)]

/-- Tells the host about a fault, or the log if the host does not want to know. -/
def tell (h : Handler) (f : Fault) : Action Unit :=
  match h.callback with
  | none => Action.log (failedRecord f)
  | some callback => Handler.call callback f

/-- The outcome of a run that a fault has ended. -/
def failed (h : Handler) (config : Path) (f : Fault) : Action Outcome := do
  tell h f
  return .failed f.message (some config)

/-- The outcome of a run whose child could not be started or talked to.  Only errors of
the operating system are expected. -/
def unreachable (h : Handler) (t : Talk) (f : Failure) : Action Outcome :=
  if f.isTimeout then failed h t.config (.timeout t.invocation.display (.float t.timeout))
  else if f.isSystem then failed h t.config (.spawnFailed t.invocation.display f.display)
  else Action.fail f

/-- Kills a child that is not wanted any more, and reaps it, with nothing else happening
meanwhile. -/
def putDown (w : WaitEnd) (exited : Bool) : Action Unit := do
  if w.kills exited then
    Action.emit (.process .kill)
    Action.emit (.process .reap)

/-- The failure of a talk that ran out of time. -/
def outOfTime : Failure := .system ⟨.timedOut, none, [], none⟩

def collect : TalkEnd → Except Failure ProcessOutput
  | .replied (.output o) => .ok o
  | .replied (.failure f) => .error f
  | .outOfTime => .error outOfTime

/-- The outcome that the output of a child decides. -/
def conclude (h : Handler) (t : Talk) (o : ProcessOutput) : Action Outcome := do
  Action.log (finishedRecord t.invocation o)
  let command := t.invocation.display
  let stderr := ProcessOutput.decoded o.stderr
  if !stderr.isEmpty then failed h t.config (.processFailed command (statusDatum o) stderr)
  else
    match ← Action.ofLogged (Report.read (Utf8.decodeReplacing o.stdout)) with
    | .unreadable reason => failed h t.config (.reportUnreadable command reason)
    | report => return report.outcome (some t.config)

def spawn (i : Invocation) (refusal : Option Failure) : Action Unit :=
  match refusal with
  | some f => do
    Action.emit (.refused i.command i.cwd i.input.isSome)
    Action.fail f
  | none => Action.emit (.process (.spawn i.command i.cwd i.input.isSome))

/-- Gives the child its input, which has to be text that can be encoded. -/
def feed (i : Invocation) : Action Unit :=
  match Utf8.encode (i.input.getD []) with
  | .error fault => Action.fail (.ofSurrogate fault)
  | .ok _ => Action.emit (.process (.input i.input))

/-- The part of a run before the wait. -/
def start (h : Handler) (settings : LinterSettings) (config file : Path) (mode : RunMode)
    (text : Option Text) (child : Child) : Action (Progress Talk Outcome) := do
  let t : Talk := ⟨.build settings config file mode text, config, settings.timeout⟩
  Action.log (startedRecord t.invocation)
  let refused ← Action.recover
    (do
      spawn t.invocation child.refusal
      return none)
    (fun f => do return some (← unreachable h t f))
  match refused with
  | some outcome => return .done outcome
  | none =>
    feed t.invocation
    return .waiting t

/-- The part of a run after the wait. -/
def resume (h : Handler) (t : Talk) (e : TalkEnd) : Action Outcome :=
  match collect e with
  | .ok o => conclude h t o
  | .error f => unreachable h t f

/-- A whole run, with nothing else happening meanwhile. -/
def run (h : Handler) (settings : LinterSettings) (config file : Path) (mode : RunMode)
    (text : Option Text) (child : Child) : Action Outcome := do
  match ← start h settings config file mode text child with
  | .done outcome => return outcome
  | .waiting t => do
    let e := child.talk t.timeout
    putDown (.talk e) child.exited
    resume h t e

end Runner

end EditorLint
