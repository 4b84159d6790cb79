import EditorLint.Datum.Basic
import EditorLint.Decimal.Read

/-!
# Reading JSON

One JSON text as a value.  The grammar is the standard one with three additions:
the words `NaN`, `Infinity` and `-Infinity`, and escapes of half a surrogate pair.
Numbers without fraction and exponent are integers of any size up to a limit of
digits; of entries with one key the last counts.

A fault is located by the number of characters that are still unread where it
stands, since a reader of a suffix sees nothing else; `Fault.locate` turns this
into line, column and offset.

Embedded: `loads` of the library for JSON, as far as a report or a variable can tell.
-/

namespace EditorLint.Json

/-- What can be wrong with a JSON text. -/
inductive Problem where
  | mark
  | value
  | name
  | colon
  | comma
  | extra
  | unterminated
  | control
  | escape
  | unicodeEscape
  deriving DecidableEq, Repr

namespace Problem

def message : Problem → String
  | mark => "Unexpected UTF-8 BOM (decode using utf-8-sig)"
  | value => "Expecting value"
  | name => "Expecting property name enclosed in double quotes"
  | colon => "Expecting ':' delimiter"
  | comma => "Expecting ',' delimiter"
  | extra => "Extra data"
  | unterminated => "Unterminated string starting at"
  | control => "Invalid control character at"
  | escape => "Invalid \\escape"
  | unicodeEscape => "Invalid \\uXXXX escape"

end Problem

/-- Why a text is not read. -/
inductive Fault where
  /-- The text is not JSON at the place with `left` characters to go. -/
  | malformed (problem : Problem) (left : Nat)
  /-- An integer has more digits than are converted. -/
  | digits (count : Nat)
  /-- Arrays or objects are nested too deeply. -/
  | depth (object : Bool)
  deriving DecidableEq, Repr

def maxDigits : Nat := 4300

/-- The most arrays and objects one inside another.  Each is read by a call inside the calls for
those around it, of which there may be a thousand on the stack; ten are left for the callers of
the reader, which are a few more or less from one of them to another. -/
def maxDepth : Nat := 990

def isBlank (c : Char) : Bool := c == ' ' || c == '\t' || c == '\n' || c == '\r'

def skip (s : List Char) : List Char := s.dropWhile isBlank

/-- A fault at the beginning of `s`. -/
def bad {α : Type} (problem : Problem) (s : List Char) : Except Fault α :=
  .error (.malformed problem s.length)

/-! ## Strings -/

def hex4? : List Char → Option (Nat × List Char)
  | a :: b :: c :: d :: rest => (Numeral.ofDigits? 16 [a, b, c, d]).map (·, rest)
  | _ => none

/-- The code of a number below `0x10000`. -/
def unit (n : Nat) : Code := (Code.ofNat? n).getD default

/-- The code of the escape whose `u` is the first character of `u :: s`: two
escapes when they make a surrogate pair.  At least one character must follow the
digits. -/
def unicodeEscape (s : List Char) : Except Fault (Code × List Char) :=
  let fault : Fault := .malformed .unicodeEscape (s.length + 1)
  if s.length ≤ 4 then .error fault
  else match hex4? s with
    | none => .error fault
    | some (high, rest) =>
      if 0xD800 ≤ high ∧ high < 0xDC00 ∧ 6 < rest.length then
        match rest with
        | '\\' :: 'u' :: more =>
          match hex4? more with
          | none => .error (.malformed .unicodeEscape (more.length + 1))
          | some (low, rest') =>
            if 0xDC00 ≤ low ∧ low < 0xE000 then
              .ok ((Code.ofNat? (0x10000 + (high - 0xD800) * 0x400 + (low - 0xDC00))).getD default, rest')
            else .ok (unit high, rest)
        | _ => .ok (unit high, rest)
      else .ok (unit high, rest)

def shortEscape? : Char → Option Char
  | '"' => some '"'
  | '\\' => some '\\'
  | '/' => some '/'
  | 'b' => some '\x08'
  | 'f' => some '\x0c'
  | 'n' => some '\n'
  | 'r' => some '\r'
  | 't' => some '\t'
  | _ => none

/-- The rest of a string whose opening quote has `start` characters from it on,
with fuel for the characters. -/
def stringBody (start : Nat) : (fuel : Nat) → List Char → Except Fault (Text × List Char)
  | 0, _ => .error (.malformed .unterminated start)
  | _ + 1, [] => .error (.malformed .unterminated start)
  | _ + 1, '"' :: rest => .ok ([], rest)
  | _ + 1, ['\\'] => .error (.malformed .unterminated start)
  | fuel + 1, '\\' :: 'u' :: rest => do
    let (code, rest) ← unicodeEscape rest
    let (t, rest) ← stringBody start fuel rest
    return (code :: t, rest)
  | fuel + 1, '\\' :: c :: rest =>
    match shortEscape? c with
    | none => bad .escape ('\\' :: c :: rest)
    | some d => do
      let (t, rest) ← stringBody start fuel rest
      return (.scalar d :: t, rest)
  | fuel + 1, c :: rest =>
    if c.toNat ≤ 0x1F then bad .control (c :: rest)
    else do
      let (t, rest) ← stringBody start fuel rest
      return (.scalar c :: t, rest)

def string (s : List Char) : Except Fault (Text × List Char) := stringBody (s.length + 1) (s.length + 1) s

/-! ## Numbers -/

def startsWithDigit : List Char → Bool
  | c :: _ => c.isDigit
  | [] => false

/-- The digits after a point, when a point and a digit stand there. -/
def fraction (s : List Char) : Option (List Char) × List Char :=
  match s with
  | '.' :: rest =>
    if startsWithDigit rest then (some (rest.takeWhile Char.isDigit), rest.dropWhile Char.isDigit)
    else (none, s)
  | _ => (none, s)

/-- The exponent, when `e`, perhaps a sign, and a digit stand there. -/
def exponent (s : List Char) : Option Int × List Char :=
  match s with
  | e :: rest =>
    if e == 'e' || e == 'E' then
      let (negative, digits) := match rest with
        | '-' :: more => (true, more)
        | '+' :: more => (false, more)
        | _ => (false, rest)
      if startsWithDigit digits then
        let n : Int := Numeral.value (digits.takeWhile Char.isDigit)
        (some (if negative then -n else n), digits.dropWhile Char.isDigit)
      else (none, s)
    else (none, s)
  | [] => (none, s)

/-- The digits before the point: a zero, or digits that begin with another one. -/
def whole? : List Char → Option (List Char × List Char)
  | '0' :: rest => some (['0'], rest)
  | s => if startsWithDigit s then some (s.takeWhile Char.isDigit, s.dropWhile Char.isDigit) else none

/-- A number that begins `s`; its sign has been read when `negative`. -/
def number (negative : Bool) (start s : List Char) : Except Fault (Datum × List Char) :=
  match whole? s with
  | none => bad .value start
  | some (digits, rest) =>
    let (frac, rest) := fraction rest
    let (exp, rest) := exponent rest
    if frac.isNone && exp.isNone then
      if digits.length > maxDigits then .error (.digits digits.length)
      else
        let n : Int := Numeral.value digits
        .ok (.int (if negative then -n else n), rest)
    else .ok (.float (Numeral.decimal negative digits (frac.getD []) (exp.getD 0)), rest)

/-! ## Values -/

/-- Reads something from the beginning of a text, and hands back what is left. -/
abbrev Reader (α : Type) := List Char → Except Fault (α × List Char)

/-- The rest of an array after an item, with fuel for the items. -/
def moreItems (item : Reader Datum) : (fuel : Nat) → Reader (List Datum)
  | 0, s => bad .comma s
  | fuel + 1, s =>
    match skip s with
    | ']' :: rest => .ok ([], rest)
    | ',' :: rest => do
      let (d, rest) ← item (skip rest)
      let (ds, rest) ← moreItems item fuel rest
      return (d :: ds, rest)
    | s => bad .comma s

def array (item : Reader Datum) (s : List Char) : Except Fault (List Datum × List Char) :=
  match skip s with
  | ']' :: rest => .ok ([], rest)
  | s => do
    let (d, rest) ← item s
    let (ds, rest) ← moreItems item (s.length + 1) rest
    return (d :: ds, rest)

/-- An entry of an object: a name, a colon and a value. -/
def entry (item : Reader Datum) (s : List Char) : Except Fault ((Datum × Datum) × List Char) :=
  match s with
  | '"' :: rest => do
    let (name, rest) ← string rest
    match skip rest with
    | ':' :: rest => do
      let (d, rest) ← item (skip rest)
      return ((.text name, d), rest)
    | s => bad .colon s
  | s => bad .name s

/-- The rest of an object after an entry, with fuel for the entries. -/
def moreEntries (item : Reader Datum) : (fuel : Nat) → Reader Entries
  | 0, s => bad .comma s
  | fuel + 1, s =>
    match skip s with
    | '}' :: rest => .ok ([], rest)
    | ',' :: rest => do
      let (e, rest) ← entry item (skip rest)
      let (es, rest) ← moreEntries item fuel rest
      return (e :: es, rest)
    | s => bad .comma s

def object (item : Reader Datum) (s : List Char) : Except Fault (Entries × List Char) :=
  match skip s with
  | '}' :: rest => .ok ([], rest)
  | s => do
    let (e, rest) ← entry item s
    let (es, rest) ← moreEntries item (s.length + 1) rest
    return (e :: es, rest)

/-- The words of JSON and what they stand for. -/
def words : List (List Char × Datum) :=
  [("null".toList, .null), ("true".toList, .bool true), ("false".toList, .bool false),
    ("NaN".toList, .float (0.0 / 0.0)), ("Infinity".toList, .float (1.0 / 0.0)),
    ("-Infinity".toList, .float (-1.0 / 0.0))]

def word? (s : List Char) : Option (Datum × List Char) :=
  (words.find? fun (w, _) => w.isPrefixOf s).map fun (w, d) => (d, s.drop w.length)

/-- A value with at most `depth` arrays and objects one inside another. -/
def value : (depth : Nat) → Reader Datum
  | 0, '[' :: _ => .error (.depth false)
  | 0, '{' :: _ => .error (.depth true)
  | depth + 1, '[' :: rest => (array (value depth) rest).map fun (ds, rest) => (.list ds, rest)
  | depth + 1, '{' :: rest =>
    (object (value depth) rest).map fun (es, rest) => (.mapping (Entries.ofAssignments es), rest)
  | _, '"' :: rest => (string rest).map fun (t, rest) => (.text t, rest)
  | _, s =>
    match word? s with
    | some found => .ok found
    | none =>
      match s with
      | '-' :: rest => number true s rest
      | _ => number false s s

def read (s : List Char) : Except Fault Datum :=
  match s with
  | '\uFEFF' :: _ => bad .mark s
  | _ => do
    let (d, rest) ← value maxDepth (skip s)
    match skip rest with
    | [] => return d
    | rest => bad .extra rest

/-! ## Wording -/

/-- The message of a problem with its place in the text: lines end at line feeds,
lines and columns count from one and characters from zero. -/
def located (s : List Char) (problem : Problem) (left : Nat) : Text :=
  let before := s.take (s.length - left)
  let column := (before.reverse.takeWhile (· != '\n')).length + 1
  problem.message ++ ": line " ++ Text.ofNat (before.count '\n' + 1) ++ " column "
    ++ Text.ofNat column ++ " (char " ++ Text.ofNat before.length ++ ")"

end EditorLint.Json
