import EditorLint.Datum.Literal
import EditorLint.Diagnostic
import EditorLint.Log.Record

/-!
# Messages of a report

A report lists messages, and each well-formed one becomes a diagnostic.  A message
needs a text, a line and a column; anything else about it is optional.  The notice
that a file is ignored is passed over in silence, and a malformed message is dropped
with a warning.

Embedded: `_is_number`, `_optional_int`, `severity_from_eslint`, `_map_message` (`mapMessage`)
and `map_messages`.
-/

namespace EditorLint.Report

def logger : String := "nanolint.lint.parsers"

def ignoredNotice : Text := "File ignored"

/-- An element of a list of messages: a diagnostic already, or a value of a report. -/
inductive Message where
  | normalized (d : Diagnostic)
  | raw (d : Datum)

/-- Whether a value is a number; the truth values are none. -/
def isNumber : Datum → Bool
  | .int _ | .float _ => true
  | _ => false

def integerPart : Datum → Except Failure Int
  | .int n => .ok n
  | .float x =>
    match Binary.ofFloat? x with
    | some b => .ok b.truncate
    | none => .error (if x.isNaN then .nanInteger else .infiniteInteger)
  | _ => .ok 0

/-- The integer part of a value that is a number. -/
def integerPart? (d : Datum) : Except Failure (Option Int) :=
  if isNumber d then (integerPart d).map some else .ok none

/-- The severity that a number stands for: 2 is an error and 1 a warning. -/
def severity (d : Datum) : Severity :=
  if isNumber d && d.sameKey (.int 2) then .error
  else if isNumber d && d.sameKey (.int 1) then .warning
  else .info

/-- Why a message is dropped. -/
inductive Malformed where
  | notObject
  | incomplete
  deriving DecidableEq, Repr

def Malformed.reason : Malformed → String
  | .notObject => "not an object"
  | .incomplete => "missing message, line or column"

/-- What becomes of a message. -/
inductive Mapped where
  | kept (d : Diagnostic)
  | suppressed
  | dropped (why : Malformed) (raw : Datum)

def mapObject (es : Entries) : Except Failure Mapped :=
  let line := es.field "line"
  let column := es.field "column"
  match es.field "message" with
  | .text message =>
    if !isNumber line || !isNumber column then .ok (.dropped .incomplete (.mapping es))
    else
      let severity := severity (es.field "severity")
      if severity = .warning ∧ ignoredNotice.isPrefixOf message then .ok .suppressed
      else do
        let line ← integerPart line
        let column ← integerPart column
        let endLine ← integerPart? (es.field "endLine")
        let endColumn ← integerPart? (es.field "endColumn")
        let code := (es.field "ruleId").text?
        return .kept ⟨message, line, column, severity, endLine, endColumn, code⟩
  | _ => .ok (.dropped .incomplete (.mapping es))

def mapMessage : Message → Except Failure Mapped
  | .normalized d => .ok (.kept d)
  | .raw (.mapping es) => mapObject es
  | .raw d => .ok (.dropped .notObject (.text d.literal))

def droppedRecord (why : Malformed) (raw : Datum) : Log.Record :=
  .plain .warning logger "eslint_message_dropped"
    [Log.field "reason" (.string why.reason), Log.field "raw" raw]

def mapMessages : List Message → Logged (List Diagnostic)
  | [] => pure []
  | m :: rest => do
    match ← Logged.ofExcept (mapMessage m) with
    | .kept d => return d :: (← mapMessages rest)
    | .suppressed => mapMessages rest
    | .dropped why raw =>
      Logged.tell (droppedRecord why raw)
      mapMessages rest

end EditorLint.Report
