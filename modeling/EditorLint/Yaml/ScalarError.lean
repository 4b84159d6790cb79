import EditorLint.Text.Literal

/-!
# Scalars without a value

Why the text of a scalar stands for no value of the type that its tag names: it is
no numeral, no word for a truth value, no day of the calendar, or no code point, or the
search for the text does not end.
-/

namespace EditorLint

/-- Why a scalar has no value. -/
inductive ScalarError where
  | integer (base : Nat) (literal : Text)
  | integerDigits (count : Nat)
  | float (literal : Text)
  | floatRange
  | truth (word : Text)
  | empty
  | noMoment
  | year (year : Nat)
  | month
  | day
  | hour
  | minute
  | second
  | offset (negative : Bool) (minutes : Nat)
  | codePoint
  | codePointSize
  | collection
  | endless
  deriving DecidableEq, Repr

namespace ScalarError

/-- A span of minutes as a literal, by whole days and the seconds beyond them. -/
def spanLiteral (minutes : Int) : Text :=
  let seconds := (minutes % 1440).toNat * 60
  let days := minutes / 1440
  let dayPart : List Text := if days = 0 then [] else ["days=" ++ Text.ofInt days]
  let secondPart : List Text := if seconds = 0 then [] else ["seconds=" ++ Text.ofNat seconds]
  "datetime.timedelta(" ++ Text.join ", " (dayPart ++ secondPart) ++ ")"

def message : ScalarError → Text
  | integer base literal =>
    "invalid literal for int() with base " ++ Text.ofNat base ++ ": "
      ++ (Literal.quote literal).take 200
  | integerDigits count =>
    "Exceeds the limit (4300 digits) for integer string conversion: value has "
      ++ Text.ofNat count ++ " digits; use sys.set_int_max_str_digits() to increase the limit"
  | float literal => "could not convert string to float: " ++ Literal.quote literal
  | floatRange => "int too large to convert to float"
  | truth word => Literal.quote word
  | empty => "string index out of range"
  | noMoment => "'NoneType' object has no attribute 'groupdict'"
  | year n => "year " ++ Text.ofNat n ++ " is out of range"
  | month => "month must be in 1..12"
  | day => "day is out of range for month"
  | hour => "hour must be in 0..23"
  | minute => "minute must be in 0..59"
  | second => "second must be in 0..59"
  | offset negative minutes =>
    "offset must be a timedelta strictly between -timedelta(hours=24) and timedelta(hours=24), not "
      ++ spanLiteral (if negative then -(minutes : Int) else minutes) ++ "."
  | codePoint => "chr() arg not in range(0x110000)"
  | codePointSize => "Python int too large to convert to C int"
  | collection => "expected string or bytes-like object, got 'list'"
  | endless => "maximum recursion depth exceeded"

/-- The name that a log shows for an error. -/
def name : ScalarError → String
  | truth _ => "KeyError"
  | empty => "IndexError"
  | noMoment => "AttributeError"
  | codePointSize | floatRange => "OverflowError"
  | collection => "TypeError"
  | endless => "RecursionError"
  | _ => "ValueError"

end ScalarError

end EditorLint
