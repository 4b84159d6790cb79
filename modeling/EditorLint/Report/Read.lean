import EditorLint.Json.Read
import EditorLint.Report.Message

/-!
# Reading a report

The report on a file is the first object of a JSON array: its messages, and the
text that the linter proposes in place of the document's, if it proposes one.
An empty array is a report of nothing.

Embedded: `ParseResult` and `parse_eslint` (`read`).
-/

namespace EditorLint

/-- What a report says: why it cannot be used, or its diagnostics and the proposed
text. -/
inductive Report where
  | unreadable (reason : Text)
  | readable (diagnostics : List Diagnostic) (fix : Option Text)

namespace Report

/-- The diagnostics of a report; one that cannot be used has none. -/
def diagnostics : Report → List Diagnostic
  | unreadable _ => []
  | readable ds _ => ds

def fix : Report → Option Text
  | unreadable _ => none
  | readable _ fix => fix

/-- The report in the first element of an array. -/
def ofResult : Datum → Logged Report
  | .mapping es =>
    let messages := Entries.field "messages" es
    let fix := (Entries.field "output" es).text?
    match messages with
    | .list items => do return .readable (← mapMessages (items.map .raw)) fix
    | d => if d.isTruthy then pure (.unreadable "'messages' is not an array") else pure (.readable [] fix)
  | d => pure (.unreadable ("Expected a result object, got " ++ d.kind))

def ofDatum : Datum → Logged Report
  | .list [] => pure (.readable [] none)
  | .list (first :: _) => ofResult first
  | d => pure (.unreadable ("Expected a JSON array, got " ++ d.kind))

def read (s : List Char) : Logged Report :=
  match Json.read s with
  | .ok d => ofDatum d
  | .error (.malformed problem left) =>
    pure (.unreadable ("ESLint JSON parse error: " ++ Json.located s problem left))
  | .error (.digits count) => Logged.ofExcept (.error (.tooManyDigits count))
  | .error (.depth object) => Logged.ofExcept (.error (.nestedTooDeep object))

end Report

end EditorLint
