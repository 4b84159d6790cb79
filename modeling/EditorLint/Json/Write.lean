import EditorLint.Datum.Basic
import EditorLint.Decimal.Format

/-!
# Writing JSON

The text of a value on one line, with a blank after each comma and colon, in ASCII
alone: any other code is escaped, a character above `0xFFFF` as a surrogate pair.
-/

namespace EditorLint.Json

/-- A number below `0x10000` as an escape. -/
def unitEscape (n : Nat) : Text := "\\u" ++ Text.hex 4 n

def escapeCode (c : Code) : Text :=
  let n := c.value
  if c.isChar '"' then "\\\""
  else if c.isChar '\\' then "\\\\"
  else if c.isChar '\n' then "\\n"
  else if c.isChar '\r' then "\\r"
  else if c.isChar '\t' then "\\t"
  else if c.isChar '\x0c' then "\\f"
  else if c.isChar '\x08' then "\\b"
  else if 0x20 ≤ n ∧ n < 0x7F then [c]
  else if n < 0x10000 then unitEscape n
  else
    let m := n - 0x10000
    unitEscape (0xD800 + m / 0x400) ++ unitEscape (0xDC00 + m % 0x400)

def quote (t : Text) : Text := .scalar '"' :: t.flatMap escapeCode ++ [.scalar '"']

/-- A floating-point number, the infinities and NaN as words. -/
def ofFloat (x : Float) : Text :=
  if x.isNaN then "NaN"
  else if x.isInf then (if x < 0 then "-Infinity" else "Infinity")
  else Text.ofFloat x

def name : Datum → Text
  | .text t => t
  | .null => "null"
  | .bool b => if b then "true" else "false"
  | .int n => Text.ofInt n
  | .float x => ofFloat x
  | _ => []

mutual

def write : Datum → Text
  | .null => "null"
  | .bool b => if b then "true" else "false"
  | .int n => Text.ofInt n
  | .float x => ofFloat x
  | .text t => quote t
  | .bytes _ | .date _ | .moment _ | .circular _ _ | .part _ => "null"
  | .list items => "[" ++ Text.join ", " (writeItems items) ++ "]"
  | .set members => "[" ++ Text.join ", " (writeItems members) ++ "]"
  | .pair a b => "[" ++ write a ++ ", " ++ write b ++ "]"
  | .mapping entries => "\x7b" ++ Text.join ", " (writeEntries entries) ++ "\x7d"

def writeItems : List Datum → List Text
  | [] => []
  | d :: rest => write d :: writeItems rest

def writeEntries : List (Datum × Datum) → List Text
  | [] => []
  | (k, v) :: rest => (quote (name k) ++ ": " ++ write v) :: writeEntries rest

end

end EditorLint.Json
