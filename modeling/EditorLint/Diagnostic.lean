import EditorLint.Datum.Basic
import EditorLint.Path

/-!
# Diagnostics

One finding of the linter: a message at a place of a document, with a severity
and, where the linter gives them, the end of the place and the rule behind it.
Lines and columns count from one.

Embedded: `Severity`, `Diagnostic` with `to_dict` (`fields`), and `format_diagnostic` (`render`).
-/

namespace EditorLint

/-- How grave a finding is. -/
inductive Severity where
  | error
  | warning
  | info
  deriving DecidableEq, Repr

namespace Severity

def word : Severity → String
  | error => "error"
  | warning => "warning"
  | info => "info"

def ofWord? (d : Datum) : Option Severity :=
  match d with
  | .text t => [error, warning, info].find? fun s => t.isString s.word
  | _ => none

end Severity

/-- One finding of the linter. -/
structure Diagnostic where
  message : Text
  line : Int
  column : Int
  severity : Severity
  endLine : Option Int
  endColumn : Option Int
  code : Option Text
  deriving DecidableEq, Repr

namespace Diagnostic

/-- The finding on one line: `path:line:column: severity: message [rule]`. -/
def render (path : Path) (d : Diagnostic) : Text :=
  let head := path.text ++ ":" ++ Text.ofInt d.line ++ ":" ++ Text.ofInt d.column ++ ": "
    ++ d.severity.word ++ ": " ++ d.message
  match d.code with
  | none | some [] => head
  | some code => head ++ " [" ++ code ++ "]"

def optional {α : Type} (wrap : α → Datum) : Option α → Datum
  | none => .null
  | some a => wrap a

/-- The seven fields of a finding, in order. -/
def fields (d : Diagnostic) : Entries :=
  [(.string "message", .text d.message), (.string "line", .int d.line),
    (.string "column", .int d.column), (.string "end_line", optional .int d.endLine),
    (.string "end_column", optional .int d.endColumn),
    (.string "severity", .string d.severity.word), (.string "code", optional .text d.code)]

end Diagnostic

end EditorLint
