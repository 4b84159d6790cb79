import EditorLint.Decimal.Binary
import EditorLint.Text.Basic

/-!
# Reading numerals

Digit sequences as natural numbers, and decimal numbers with a fraction and an
exponent as the nearest double (infinity when the number is too large).
-/

namespace EditorLint.Numeral

/-- The value of a digit in bases up to thirty-six. -/
def digit? (base : Nat) (c : Char) : Option Nat :=
  let n :=
    if '0' ≤ c ∧ c ≤ '9' then some (c.toNat - '0'.toNat)
    else if 'a' ≤ c ∧ c ≤ 'z' then some (c.toNat - 'a'.toNat + 10)
    else if 'A' ≤ c ∧ c ≤ 'Z' then some (c.toNat - 'A'.toNat + 10)
    else none
  n.filter (· < base)

def ofDigits? (base : Nat) (cs : List Char) : Option Nat :=
  if cs.isEmpty then none
  else cs.foldlM (fun n c => (digit? base c).map (n * base + ·)) 0

/-- The number written by decimal digits; anything else counts as zero. -/
def value (cs : List Char) : Nat := (ofDigits? 10 cs).getD 0

/-- The double nearest to `digits · 10^exponent`.  Numbers beyond the range of the
format are settled by their magnitude alone. -/
def toFloat (negative : Bool) (digits : Nat) (exponent : Int) : Float :=
  let size : Int := (Nat.toDigits 10 digits).length
  let x : Float :=
    if digits = 0 then 0.0
    else if size + exponent > 400 then 1.0 / 0.0
    else if size + exponent < -400 then 0.0
    else if exponent ≥ 0 then Float.ofScientific (digits * powerOfTen exponent.toNat) false 0
    else Float.ofScientific digits true (-exponent).toNat
  if negative then -x else x

/-- The double written by the digits before the point, those after it, and the
exponent. -/
def decimal (negative : Bool) (whole fraction : List Char) (exponent : Int) : Float :=
  toFloat negative (value (whole ++ fraction)) (exponent - fraction.length)

def sign : List Char → Bool × List Char
  | '-' :: rest => (true, rest)
  | '+' :: rest => (false, rest)
  | s => (false, s)

/-- The exponent that ends a numeral: `e`, perhaps a sign, and digits; or nothing. -/
def exponent? : List Char → Option Int
  | [] => some 0
  | e :: rest =>
    if e == 'e' || e == 'E' then
      let (negative, digits) := sign rest
      if digits.all Char.isDigit then
        (ofDigits? 10 digits).map fun n => if negative then -(n : Int) else n
      else none
    else none

/-- The number that a numeral without blanks and underscores writes. -/
def float? (s : List Char) : Option Float :=
  let (negative, body) := sign s
  let lower := body.map Char.toLower
  if lower == "inf".toList || lower == "infinity".toList then
    some (if negative then -1.0 / 0.0 else 1.0 / 0.0)
  else if lower == "nan".toList then some (0.0 / 0.0)
  else
    let whole := body.takeWhile Char.isDigit
    let afterWhole := body.dropWhile Char.isDigit
    let (fraction, rest) := match afterWhole with
      | '.' :: more => (more.takeWhile Char.isDigit, more.dropWhile Char.isDigit)
      | _ => ([], afterWhole)
    if whole.isEmpty && fraction.isEmpty then none
    else (exponent? rest).map (decimal negative whole fraction)

/-- The double nearest to an integer, unless it is too large for one. -/
def floatOfInt? (n : Int) : Option Float :=
  let x := toFloat (n < 0) n.natAbs 0
  if x.isInf then none else some x

end EditorLint.Numeral
