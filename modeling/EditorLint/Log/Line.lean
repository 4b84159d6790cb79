import EditorLint.Datum.Literal
import EditorLint.Json.Write
import EditorLint.Log.Record

/-!
# Lines of the log

A message is an event with its fields, or a bare text that some other part of the
program has logged.  Written down it is one mapping: the fields in the order in which
they were given, then the event, the request, the logger, the level, and the time.

A JSON line is that mapping.  A console line shows the five in a fixed order and then
the fields by name; a failure has a line of its own below.

Embedded: what `_make_formatter` sets up, which is the library's `ConsoleRenderer` without
colours and its `JSONRenderer`, and the format of events that go to no handler.
-/

namespace EditorLint.Log

/-- A message on its way to the outputs. -/
structure Message where
  rank : Nat
  logger : Text
  event : Text
  fields : Entries
  requestId : Option Text
  raised : Option Failure
  bare : Bool

/-- The word for a level number; one without a name is spelled out. -/
def rankWord (rank : Nat) : Text :=
  match Level.all.find? fun l => l.number == rank with
  | some l => l.word
  | none => "level " ++ Text.ofNat rank

namespace Message

def ofRecord (r : Record) : Message :=
  ⟨r.level.number, r.logger, r.event, r.fields, r.requestId, r.raised, false⟩

/-- An event with fields; the logger without a name is the root. -/
def ofEvent (level : Level) (logger event : Text) (fields : Entries) (requestId : Option Text) :
    Message :=
  ⟨level.number, if logger.isEmpty then "root" else logger, event, fields, requestId, none, false⟩

def ofText (rank : Nat) (logger text : Text) (requestId : Option Text) : Message :=
  ⟨rank, if logger.isEmpty then "root" else logger, text, [], requestId, none, true⟩

/-- The fields, and a mark where the message reports a failure. -/
def ownEntries (m : Message) : Entries :=
  Entries.ofAssignments (m.fields ++ if m.raised.isSome then [field "exc_info" (.bool true)] else [])

/-- The identifier of the request, unless a field has that name already. -/
def withRequest (id : Option Text) (es : Entries) : Entries :=
  match id with
  | some id =>
    if es.has (.string "request_id") then es else es.insert (.string "request_id") (.text id)
  | none => es

def entries (timestamp : Text) (m : Message) : Entries :=
  let named := m.ownEntries.insert (.string "event") (.text m.event)
  let bound := withRequest m.requestId named
  ((bound.insert (.string "logger") (.text m.logger)).insert (.string "level")
    (.text (rankWord m.rank))).insert (.string "timestamp") (.text timestamp)

def jsonLine (timestamp : Text) (m : Message) : Text := Json.write (.mapping (m.entries timestamp))

/-! ## Console lines -/

/-- Whether a code forces the text that it stands in between quotes. -/
def forcesQuotes : Code → Bool
  | .scalar c => " \t=\r\n\"'".toList.contains c
  | .surrogate _ => false

/-- The value of a field: a text without blanks, quotes and the like stands as it is. -/
def fieldValue : Datum → Text
  | .text t => if t.any forcesQuotes then Literal.quote t else t
  | d => d.literal

def bracketed (t : Text) : Text := "[" ++ t ++ "]"

/-- The names that a console line does not show among the fields. -/
def columns : List String := ["timestamp", "level", "event", "logger", "logger_name", "exc_info"]

/-- The fields of a console line, by name. -/
def shownFields (es : Entries) : List Text :=
  let rest := es.filter fun (k, _) => !columns.any fun c => k.sameKey (.string c)
  (rest.mergeSort fun a b => Text.le a.1.display b.1.display).map fun (k, v) =>
    k.display ++ "=" ++ fieldValue v

/-- The line of a failure: its name, and its wording if it has one. -/
def failureLine (f : Failure) : Text :=
  let wording := f.display
  if wording.isEmpty then f.qualifiedName else f.qualifiedName ++ ": " ++ wording

/-- The message as a line of the console, without pieces that are empty. -/
def consoleLine (timestamp : Text) (m : Message) : Text :=
  let es := m.entries timestamp
  let origin : List Text := match es.get? (.string "logger_name") with
    | some d => [bracketed d.display]
    | none => []
  let pieces : List Text :=
    [timestamp, bracketed (Text.padRight 9 (rankWord m.rank)), m.event, bracketed m.logger] ++ origin
      ++ shownFields es
  let line := Text.join " " (pieces.filter (!·.isEmpty))
  match m.raised with
  | some f => line ++ "\n" ++ failureLine f
  | none => line

/-- The message as it is shown when there are no outputs: an event as a literal, a bare
text as it stands. -/
def unroutedLine (timestamp : Text) (m : Message) : Text :=
  if m.bare then m.event else (Datum.mapping (m.entries timestamp)).literal

/-- The message as a report of an error in the log names it. -/
def literal (timestamp : Text) (m : Message) : Text :=
  if m.bare then Literal.quote m.event else m.unroutedLine timestamp

end Message

end EditorLint.Log
