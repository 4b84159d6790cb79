import EditorLint.Failure
import EditorLint.Path

/-!
# Child processes

The linter runs as a child process.  Seen from outside, a child can refuse to start,
answer at once or after a while, fail while it is talked to, or never answer; and its
exit status may be set while its output is still open.

What is done to a child shows as process events: it is spawned, it is given its input,
it is killed, and it is reaped.  Embedded are `create_subprocess_exec`, `communicate`
under `wait_for`, `kill` and `wait`; a killed child may take its time until it can be
reaped, but it never survives.
-/

namespace EditorLint

/-- What a child wrote, and the status it ended with, as far as that is known. -/
structure ProcessOutput where
  status : Option Int
  stdout : List UInt8
  stderr : List UInt8
  deriving DecidableEq, Repr

namespace ProcessOutput

/-- The text of a stream; ill-formed bytes are replaced. -/
def decoded (bytes : List UInt8) : Text := Text.ofChars (Utf8.decodeReplacing bytes)

theorem decoded_eq_nil {bytes : List UInt8} : decoded bytes = [] ↔ bytes = [] := by
  cases bytes with
  | nil => simp [decoded, Text.ofChars, Utf8.decodeReplacing]
  | cons b rest =>
    unfold decoded Utf8.decodeReplacing
    split <;> simp [Text.ofChars]

end ProcessOutput

/-- What comes of talking to a child. -/
inductive Reply where
  | output (o : ProcessOutput)
  | failure (f : Failure)

/-- When a child answers. -/
inductive Answer where
  | after (seconds : Float)
  | never
  | onRequest

/-- How a child behaves: why it does not start, if it does not; otherwise its reply and
when that comes, whether its status is set before, and whether it is there for a while yet
when it has been killed. -/
structure Child where
  refusal : Option Failure
  reply : Reply
  answer : Answer
  exited : Bool
  lingers : Bool

/-- How a talk with a child ends: with its reply, or because time runs out. -/
inductive TalkEnd where
  | replied (r : Reply)
  | outOfTime

/-- How the wait of a run ends: the talk with the child ends, or the run is given up. -/
inductive WaitEnd where
  | talk (e : TalkEnd)
  | cancelled

namespace WaitEnd

/-- Whether the wait is cut short: time runs out, the talk fails as if it had, or the run is
given up. -/
def isCutShort : WaitEnd → Bool
  | talk (.replied (.output _)) => false
  | talk (.replied (.failure f)) => f.isTimeout
  | talk .outOfTime | cancelled => true

/-- Whether the child is killed then: it is not if its status is set. -/
def kills (w : WaitEnd) (exited : Bool) : Bool := w.isCutShort && !exited

end WaitEnd

namespace Child

/-- How the talk ends when the child has a number of seconds to answer.  An answer that is
there at once is heard under any limit, one that is not a number too. -/
def talk (c : Child) (timeout : Float) : TalkEnd :=
  match c.answer with
  | .after seconds => if seconds ≤ 0 || seconds ≤ timeout then .replied c.reply else .outOfTime
  | .never | .onRequest => .outOfTime

end Child

/-- What is done to a child. -/
inductive ProcessEvent where
  | spawn (command : List Text) (cwd : Path) (piped : Bool)
  | input (data : Option Text)
  | kill
  | reap
  deriving DecidableEq, Repr

/-- An attempt to start a child: with a command, in a directory, and with an input or without. -/
structure Attempt where
  command : List Text
  cwd : Path
  piped : Bool
  deriving DecidableEq, Repr

end EditorLint
