import EditorLint.Fix
import EditorLint.IssueStore
import EditorLint.Log.RequestId
import EditorLint.Sequencer
import EditorLint.Settings.Load

/-!
# The state of a session

A session is an editor with open documents, and the requests that it makes.  Its state
holds the documents, what is on show, the requests that wait for a child, the saves that
are to come, and the time.

The history tells in order what happened: the stages of each request, its effects, and
what the host was told at its end.

Embedded: what `LintOps` keeps between its calls, and what the loop that runs it keeps: the
tasks that wait and the timers.
-/

namespace EditorLint

/-- How a request ends. -/
inductive Completion where
  | outcome (o : Outcome)
  | issues (diagnostics : List Diagnostic)
  | edited (changed : Bool)
  | failed (f : Failure)
  | cancelled

/-- Where settings come from. -/
inductive SettingsSource where
  | given (settings : Except Failure LinterSettings)
  | workspace

/-- What identifies a request: the name that the host gives it, what it asks for which
document, the identifier that its log carries, and the token of a refresh. -/
structure Ticket where
  name : Text
  task : Task
  document : Text
  path : Path
  id : Text
  token : Nat
  deriving DecidableEq

/-- A stage of a request: it began, its run of the linter came to an outcome, it put
diagnostics on show, and it ended. -/
inductive Stage where
  | began (t : Ticket)
  | found (t : Ticket) (o : Outcome)
  | published (t : Ticket) (diagnostics : List Diagnostic)
  | ended (t : Ticket) (c : Completion)

/-- Something that happened.  What the host is told carries the name that it gave. -/
inductive Entry where
  | stage (x : Stage)
  | effect (who : Text) (e : Effect)
  | done (who : Text) (c : Completion)

def Entry.stage? : Entry → Option Stage
  | stage x => some x
  | _ => none

/-- A request that waits for its child: until when it waits, and when the child will
answer, if that is known.  Once the child has been killed it waits for that to be gone, and
for nothing else; how the wait for the answer ended stays known. -/
structure Pending where
  ticket : Ticket
  settings : LinterSettings
  talk : Runner.Talk
  child : Child
  deadline : Float
  answerDue : Option Float
  killed : Option WaitEnd

/-- A save that is to come.  One that a request has caused has the identifier of the
request. -/
structure DeferredSave where
  name : Option Text
  document : Text
  id : Option Text
  due : Float

/-- The name that an effect of a save is noted under. -/
def DeferredSave.who (d : DeferredSave) : Text := d.name.getD d.document

/-- The state of an editor between two events. -/
structure Session where
  machine : Machine
  handler : Handler
  source : SettingsSource
  documents : List (Text × OpenDocument)
  issues : IssueStore
  sinkFailure : Option Failure
  sequencer : Sequencer Path
  clock : Float
  requests : Nat
  pending : List Pending
  saves : List DeferredSave
  history : List Entry

namespace Pending

/-- How the talk has ended at a time, if it has. -/
def ending? (p : Pending) (clock : Float) : Option TalkEnd :=
  let answered := p.answerDue.any fun due => !(clock < due) && !(p.deadline < due)
  if answered then some (.replied p.child.reply)
  else if clock < p.deadline then none
  else some .outOfTime

/-- How a request can go on at a time, if it can: the talk with its child has ended, or its
killed child is gone. -/
def over? (p : Pending) (clock : Float) : Option WaitEnd :=
  match p.killed with
  | some w => if p.child.lingers then none else some w
  | none => (p.ending? clock).map .talk

/-- The reaping of a child that has been killed. -/
def reap (p : Pending) : Action Unit :=
  if p.killed.isSome then Action.emit (.process .reap) else pure ()

/-- When the talk ends, as far as is known. -/
def due (p : Pending) : Float :=
  match p.answerDue with
  | some due => if p.deadline < due then p.deadline else due
  | none => p.deadline

end Pending

namespace Session

def initial (m : Machine) (h : Handler) (source : SettingsSource)
    (documents : List (Text × OpenDocument)) : Session where
  machine := m
  handler := h
  source := source
  documents := documents
  issues := .empty
  sinkFailure := none
  sequencer := .empty
  clock := 0
  requests := 0
  pending := []
  saves := []
  history := []

def document? (s : Session) (name : Text) : Option OpenDocument := s.documents.lookup name

def withDocument (s : Session) (name : Text) (d : OpenDocument) : Session :=
  { s with documents := s.documents.map fun (n, old) => (n, if n == name then d else old) }

def loaded (s : Session) : Except Failure LinterSettings :=
  match s.source with
  | .given settings => settings
  | .workspace => Config.loadLinter s.machine none

/-- The session in which some effects have come about. -/
def note (s : Session) (who : Text) (es : List Effect) : Session :=
  { s with history := s.history ++ es.map (.effect who) }

/-- The session in which a request has come to a stage. -/
def mark (s : Session) (x : Stage) : Session := { s with history := s.history ++ [.stage x] }

/-- The session in which the host has been told how something ended. -/
def complete (s : Session) (who : Text) (c : Completion) : Session :=
  { s with history := s.history ++ [.done who c] }

def close (s : Session) (t : Ticket) (c : Completion) : Session :=
  (s.mark (.ended t c)).complete t.name c

/-- The session in which a request has ended with an action. -/
def conclude (s : Session) (t : Ticket) (x : Action Completion) : Session :=
  let s := s.note t.name x.effects
  match x.result with
  | .ok c => s.close t c
  | .error f => s.close t (.failed f)

/-- The stages that requests have come to, in order. -/
def stages (s : Session) : List Stage := s.history.filterMap Entry.stage?

end Session

end EditorLint
