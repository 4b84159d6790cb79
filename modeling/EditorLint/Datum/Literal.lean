import EditorLint.Datum.Basic
import EditorLint.Decimal.Format
import EditorLint.Decimal.Power
import EditorLint.Text.Literal

/-!
# Literals of data

The literal of a value names it without ambiguity: texts are quoted, lists stand
in brackets, pairs in parentheses, sets and mappings in braces.  The *display* of
a value is its literal, except that a text is shown bare and a moment as a date
and a time.
-/

namespace EditorLint

namespace Date

def display (d : Date) : Text :=
  Text.padded 4 d.year ++ "-" ++ Text.padded 2 d.month ++ "-" ++ Text.padded 2 d.day

def numbers (d : Date) : Text :=
  Text.ofNat d.year ++ ", " ++ Text.ofNat d.month ++ ", " ++ Text.ofNat d.day

end Date

namespace Moment

/-- An offset from UTC as a literal: whole days below and the seconds above them. -/
def zoneLiteral (minutes : Int) : Text :=
  if minutes = 0 then "datetime.timezone.utc"
  else
    let seconds := (minutes % 1440).toNat * 60
    let days := minutes / 1440
    let parts : List Text :=
      (if days = 0 then [] else ["days=" ++ Text.ofInt days])
        ++ (if seconds = 0 then [] else ["seconds=" ++ Text.ofNat seconds])
    "datetime.timezone(datetime.timedelta(" ++ Text.join ", " parts ++ "))"

/-- The literal of a moment: seconds and microseconds only as far as needed. -/
def literal (m : Moment) : Text :=
  let time := ", " ++ Text.ofNat m.hour ++ ", " ++ Text.ofNat m.minute
  let fine : Text :=
    if m.microsecond ≠ 0 then
      ", " ++ Text.ofNat m.second ++ ", " ++ Text.ofNat m.microsecond
    else if m.second ≠ 0 then ", " ++ Text.ofNat m.second
    else []
  let zone : Text := match m.offset with
    | none => []
    | some minutes => ", tzinfo=" ++ zoneLiteral minutes
  "datetime.datetime(" ++ m.date.numbers ++ time ++ fine ++ zone ++ ")"

/-- A date and a time with a blank between them. -/
def display (m : Moment) : Text :=
  let fine : Text := if m.microsecond = 0 then [] else "." ++ Text.padded 6 m.microsecond
  let zone : Text := match m.offset with
    | none => []
    | some minutes =>
      let sign : Text := if minutes < 0 then "-" else "+"
      sign ++ Text.padded 2 (minutes.natAbs / 60) ++ ":" ++ Text.padded 2 (minutes.natAbs % 60)
  m.date.display ++ " " ++ Text.padded 2 m.hour ++ ":" ++ Text.padded 2 m.minute ++ ":"
    ++ Text.padded 2 m.second ++ fine ++ zone

end Moment

namespace Datum

mutual

/-- The literal of a value, with those of parts and of values that contain themselves
given. -/
def literalWith (part : Nat → Text) (circle : List Datum → Nat → Text) : Datum → Text
  | null => "None"
  | bool b => if b then "True" else "False"
  | int n => Text.ofInt n
  | float x => Text.ofFloat x
  | text t => Literal.quote t
  | bytes bs => Literal.quoteBytes bs
  | date d => "datetime.date(" ++ d.numbers ++ ")"
  | moment m => m.literal
  | list items => "[" ++ Text.join ", " (literalsWith part circle items) ++ "]"
  | pair a b => "(" ++ literalWith part circle a ++ ", " ++ literalWith part circle b ++ ")"
  | set [] => "set()"
  | set members => "\x7b" ++ Text.join ", " (literalsWith part circle members) ++ "\x7d"
  | mapping entries => "\x7b" ++ Text.join ", " (entryLiteralsWith part circle entries) ++ "\x7d"
  | circular parts i => circle parts i
  | .part i => part i

def literalsWith (part : Nat → Text) (circle : List Datum → Nat → Text) : List Datum → List Text
  | [] => []
  | d :: rest => literalWith part circle d :: literalsWith part circle rest

/-- The literals of entries, a colon between key and value. -/
def entryLiteralsWith (part : Nat → Text) (circle : List Datum → Nat → Text) :
    List (Datum × Datum) → List Text
  | [] => []
  | (k, v) :: rest =>
    (literalWith part circle k ++ ": " ++ literalWith part circle v)
      :: entryLiteralsWith part circle rest

end

/-- What stands in a literal for a value around it. -/
def ellipsis : Datum → Text
  | mapping _ => "\x7b...\x7d"
  | _ => "[...]"

/-- The literal of the part with a number, inside the literals of the parts `around` it;
with fuel for the parts. -/
def partLiteral (parts : List Datum) : (fuel : Nat) → (around : List Nat) → Nat → Text
  | 0, _, _ => []
  | fuel + 1, around, i =>
    let d := parts.getD i null
    if around.contains i then d.ellipsis
    else d.literalWith (partLiteral parts fuel (i :: around)) fun _ _ => []

/-- The literal of a value.  A value that contains itself is written out once, and is
shown by an ellipsis where it stands inside its own literal. -/
def literal (d : Datum) : Text :=
  d.literalWith (fun _ => []) fun parts i => partLiteral parts (parts.length + 1) [] i

/-! ## Long integers -/

/-- The most digits of an integer in a literal. -/
def maxDigits : Nat := 4300

def longLimit : Nat := powerOfTen maxDigits

mutual

/-- Whether an integer with too many digits stands in the literal of a value, where it is
known for parts and for values that contain themselves. -/
def hasLongIntWith (part : Nat → Bool) (circle : List Datum → Nat → Bool) : Datum → Bool
  | int n => longLimit ≤ n.natAbs
  | list items | set items => anyLongIntWith part circle items
  | pair a b => hasLongIntWith part circle a || hasLongIntWith part circle b
  | mapping entries => anyLongEntryWith part circle entries
  | circular parts i => circle parts i
  | .part i => part i
  | _ => false

/-- Whether one stands in the literals of a list of values. -/
def anyLongIntWith (part : Nat → Bool) (circle : List Datum → Nat → Bool) : List Datum → Bool
  | [] => false
  | d :: rest => hasLongIntWith part circle d || anyLongIntWith part circle rest

def anyLongEntryWith (part : Nat → Bool) (circle : List Datum → Nat → Bool) :
    List (Datum × Datum) → Bool
  | [] => false
  | (k, v) :: rest =>
    hasLongIntWith part circle k || hasLongIntWith part circle v
      || anyLongEntryWith part circle rest

end

/-- Whether one stands in the literal of the part with a number, inside those of the parts
`around` it; with fuel for the parts. -/
def partHasLongInt (parts : List Datum) : (fuel : Nat) → (around : List Nat) → Nat → Bool
  | 0, _, _ => false
  | fuel + 1, around, i =>
    !around.contains i
      && (parts.getD i null).hasLongIntWith (partHasLongInt parts fuel (i :: around)) fun _ _ => false

/-- Whether an integer with too many digits stands in the literal of a value, so that the
literal cannot be written. -/
def hasLongInt (d : Datum) : Bool :=
  d.hasLongIntWith (fun _ => false) fun parts i => partHasLongInt parts (parts.length + 1) [] i

def display : Datum → Text
  | text t => t
  | date d => d.display
  | moment m => m.display
  | d => d.literal

end Datum

end EditorLint
