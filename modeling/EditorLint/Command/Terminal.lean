import EditorLint.Action
import EditorLint.Log.RequestId
import EditorLint.Log.Setup
import EditorLint.Machine
import EditorLint.Text.Style

/-!
# The terminal

What a command works on: the machine, the log, the children that it may start or try to,
and what it has printed.  A command changes this state and comes to an end of one of three kinds: it
has done its work, it gives up with a status, or it fails in a way that nobody has
foreseen.

Assumed of the streams: both are in UTF-8.  The output stream takes only what can be
encoded; on the error stream a lone surrogate is written as its escape.  Neither of them is
a screen, so what a command tells its user comes out without styles; the lines of the log
are written as they are.

Embedded besides the commands' own `echo`: `emit` and `handleError` of the handlers of the
log.  An output of the log that cannot encode a line does not get it, and the error stream
gets a report instead.  What such a report shows of the calls under way depends on how and
where the program is installed, so it is given (`CallTrace`).
-/

namespace EditorLint

/-- What a report of an error shows of the calls under way: those that led to the error, below
the errors that were being dealt with, and those that led to the event. -/
structure CallTrace where
  failed : Text
  logged : Text

/-- What a command works on. -/
structure Terminal where
  machine : Machine
  time : Text
  children : List Child
  traces : List CallTrace
  log : Log.Setup
  correlation : Correlation
  stdout : List Char
  stderr : List Char
  processes : List ProcessEvent
  attempts : List Attempt

/-- Why a command ends before its work is done. -/
inductive Halt where
  | exit (status : Nat)
  | failure (f : Failure)

abbrev Command (α : Type) := ExceptT Halt (StateM Terminal) α

namespace Child

def absent : Child where
  refusal := some (.system ⟨.notFound, some 2, "No such file or directory", none⟩)
  reply := .output ⟨none, [], []⟩
  answer := .never
  exited := true
  lingers := false

end Child

namespace Terminal

/-- A terminal on which nothing has happened yet; its log tells warnings only, on the
error stream. -/
def fresh (machine : Machine) (time : Text) (children : List Child) (traces : List CallTrace) :
    Terminal where
  machine := machine
  time := time
  children := children
  traces := traces
  log := .silent .warning
  correlation := .initial
  stdout := []
  stderr := []
  processes := []
  attempts := []

def withFiles (t : Terminal) (files : FileSystem) : Terminal :=
  { t with machine := { t.machine with files } }

/-- The text in which every lone surrogate is written as its escape. -/
def escaped (t : Text) : List Char :=
  t.flatMap fun
    | .scalar c => [c]
    | .surrogate n => '\\' :: 'u' :: (Text.hex 4 (0xD800 + n.val)).shown

/-- The report of a line of the log that cannot be encoded. -/
def errorReport (time : Text) (m : Log.Message) (fault : Utf8.EncodeFault) (trace : CallTrace) :
    Text :=
  "--- Logging error ---\n" ++ trace.failed ++ Log.Message.failureLine (.ofSurrogate fault)
    ++ "\nCall stack:\n" ++ trace.logged ++ "Message: " ++ m.literal time ++ "\nArguments: ()\n"

/-- Reports that a line of the log cannot be encoded. -/
def reportError (t : Terminal) (m : Log.Message) (fault : Utf8.EncodeFault) : Terminal :=
  let report := errorReport t.time m fault (t.traces.headD ⟨[], []⟩)
  { t with traces := t.traces.tail, stderr := t.stderr ++ escaped report }

/-- Writes a line of the log, which is about a message.  A file of the log is one that has
been opened. -/
def writeLine (t : Terminal) (m : Log.Message) (destination : Destination) (line : Text) :
    Terminal :=
  match destination with
  | .console .stderr => { t with stderr := t.stderr ++ escaped line }
  | .console .stdout =>
    match Utf8.encode line with
    | .ok _ => { t with stdout := t.stdout ++ line.shown }
    | .error fault => t.reportError m fault
  | .file path =>
    match Utf8.encode line with
    | .ok bytes =>
      match t.machine.files.append t.machine.cwd path bytes with
      | .ok files => t.withFiles files
      | .error _ => t
    | .error fault => t.reportError m fault

/-- Delivers a message to the channels of the log. -/
def deliver (t : Terminal) (m : Log.Message) : Terminal :=
  (t.log.deliveries t.time m).foldl (fun t (destination, line) => t.writeLine m destination line) t

/-- What an effect does.  A child that is started, or cannot be, is the next one. -/
def undergo (t : Terminal) : Effect → Terminal
  | .log r => t.deliver (.ofRecord r)
  | .process (.spawn command cwd piped) =>
    { t with
      children := t.children.tail
      processes := t.processes ++ [.spawn command cwd piped]
      attempts := t.attempts ++ [⟨command, cwd, piped⟩] }
  | .process e => { t with processes := t.processes ++ [e] }
  | .refused command cwd piped =>
    { t with children := t.children.tail, attempts := t.attempts ++ [⟨command, cwd, piped⟩] }
  | .report _ => t

/-- Sets the log up, and says whether that went well. -/
def configureLog (t : Terminal) (c : LoggingConfig) (verbose : Bool) :
    Terminal × Except Failure Unit :=
  let (files, log, result) := Log.Setup.configure t.machine.files t.machine.cwd c verbose
  ({ t.withFiles files with log }, result)

/-- The end of a command and the terminal after it. -/
def run {α : Type} (t : Terminal) (c : Command α) : Except Halt α × Terminal :=
  StateT.run (ExceptT.run c) t

end Terminal

namespace Command

def exit {α : Type} (status : Nat) : Command α := throw (.exit status)

/-- A result, or the failure of the command. -/
def ofExcept {α : Type} : Except Failure α → Command α
  | .ok a => return a
  | .error f => throw (.failure f)

def print (line : Text) : Command Unit :=
  match Utf8.encode (line.unstyled ++ "\n") with
  | .ok _ => modify fun t => { t with stdout := t.stdout ++ (line.unstyled ++ "\n").shown }
  | .error fault => throw (.failure (.ofSurrogate fault))

def complain (line : Text) : Command Unit :=
  modify fun t => { t with stderr := t.stderr ++ Terminal.escaped (line.unstyled ++ "\n") }

def perform {α : Type} (x : Action α) : Command α := do
  modify fun t => x.effects.foldl Terminal.undergo t
  ofExcept x.result

def configureLog (c : LoggingConfig) (verbose : Bool) : Command Unit := do
  let (t, result) := (← get).configureLog c verbose
  set t
  ofExcept result

/-- Puts other files in place, and goes on with a result. -/
def store {α : Type} (change : FileSystem × Except Failure α) : Command α := do
  modify fun t => t.withFiles change.1
  ofExcept change.2

end Command

end EditorLint
