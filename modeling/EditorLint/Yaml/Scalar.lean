import EditorLint.Datum.Basic
import EditorLint.Decimal.Read
import EditorLint.Text.Case
import EditorLint.Text.Digit
import EditorLint.Yaml.ScalarError

/-!
# Values of scalars

What the text of a scalar stands for.  A plain scalar without a tag gets the tag of
the first form that its text has: truth value, number, merge sign, null, date, value
sign; any other text is itself.  The forms are those of YAML 1.1, so `010` is eight,
`1:30` is ninety, and a number with an exponent needs a point and the sign of the
exponent.  A line feed at the end of a text does not keep it from having a form.

The forms are in ASCII, while the text of a tagged number may use the digits and the
white space of any script.
-/

namespace EditorLint.Yaml

def standardTag (name : String) : Text := "tag:yaml.org,2002:" ++ name

/-! ## Forms -/

def truthWords : List (String × Bool) :=
  [("yes", true), ("no", false), ("true", true), ("false", false), ("on", true), ("off", false)]

/-- The spellings of a word: in lower case, with a capital, in upper case. -/
def spellings (word : String) : List (List Char) :=
  let cs := word.toList
  [cs, (cs.head?.map Char.toUpper).toList ++ cs.drop 1, cs.map Char.toUpper]

def isTruth (s : List Char) : Bool := truthWords.any fun (w, _) => (spellings w).contains s

/-- A word for null, or nothing at all. -/
def isNull (s : List Char) : Bool := s.isEmpty || s == ['~'] || (spellings "null").contains s

def unsigned (s : List Char) : List Char :=
  match s with
  | '-' :: rest | '+' :: rest => rest
  | _ => s

/-- A character of `p`, or an underscore. -/
def orUnderscore (p : Char → Bool) (c : Char) : Bool := p c || c == '_'

/-- A digit, and digits and underscores after it. -/
def isDigits (first : Char → Bool) : List Char → Bool
  | c :: rest => first c && rest.all (orUnderscore Char.isDigit)
  | [] => false

/-- One digit, or two of which the first is at most five. -/
def isSixtieth : List Char → Bool
  | [a] => a.isDigit
  | [a, b] => '0' ≤ a && a ≤ '5' && b.isDigit
  | _ => false

/-- The pieces of a text between the occurrences of a character. -/
def pieces (sep : Char) : List Char → List (List Char)
  | [] => [[]]
  | c :: rest =>
    if c == sep then [] :: pieces sep rest
    else match pieces sep rest with
      | [] => [[c]]
      | p :: ps => (c :: p) :: ps

/-- A number in base sixty: digits, then sixtieths after colons. -/
def isSexagesimal (first : Char → Bool) (s : List Char) : Bool :=
  match pieces ':' s with
  | head :: rest@(_ :: _) => isDigits first head && rest.all isSixtieth
  | _ => false

def isNonZero (c : Char) : Bool := c.isDigit && c != '0'

def isInt (s : List Char) : Bool :=
  let s := unsigned s
  match s with
  | ['0'] => true
  | '0' :: 'b' :: rest => !rest.isEmpty && rest.all (orUnderscore fun c => c == '0' || c == '1')
  | '0' :: 'x' :: rest =>
    !rest.isEmpty && rest.all (orUnderscore fun c => (Numeral.digit? 16 c).isSome)
  | '0' :: rest => !rest.isEmpty && rest.all (orUnderscore fun c => '0' ≤ c && c ≤ '7')
  | s => isDigits isNonZero s || isSexagesimal isNonZero s

def isExponent : List Char → Bool
  | [] => true
  | e :: sign :: rest =>
    (e == 'e' || e == 'E') && (sign == '-' || sign == '+') && !rest.isEmpty && rest.all Char.isDigit
  | _ => false

/-- The rest of a fraction: digits and underscores, and an exponent. -/
def isFraction (s : List Char) : Bool := isExponent (s.dropWhile (orUnderscore Char.isDigit))

/-- A number with a point, an infinity, or a word for no number. -/
def isFloat (s : List Char) : Bool :=
  let body := unsigned s
  let whole := body.takeWhile (· != '.')
  let fraction := (body.dropWhile (· != '.')).drop 1
  let withPoint := body.contains '.'
  (withPoint && isDigits Char.isDigit whole && isFraction fraction)
    || (s.head? == some '.' && (s.drop 1).head?.any Char.isDigit && isFraction (s.drop 1))
    || (withPoint && isSexagesimal Char.isDigit whole && fraction.all (orUnderscore Char.isDigit))
    || (["inf", "Inf", "INF"].any fun w => body == '.' :: w.toList)
    || (["nan", "NaN", "NAN"].any fun w => s == '.' :: w.toList)

/-! ## Dates -/

/-- The numbers of a date and a time of day, as they are written. -/
structure Stamp where
  year : Nat
  month : List Char
  day : List Char
  time : Option (Nat × Nat × Nat × List Char)
  zone : Option (Option (Bool × Nat × Nat))

/-- Exactly `n` digits. -/
def exactDigits? (n : Nat) (s : List Char) : Option (List Char × List Char) :=
  let digits := s.take n
  if digits.length = n ∧ digits.all Char.isDigit then some (digits, s.drop n) else none

def shortDigits? (s : List Char) : Option (List Char × List Char) :=
  let digits := (s.take 2).takeWhile Char.isDigit
  if digits.isEmpty then none else some (digits, s.drop digits.length)

/-- What follows a character, if the text begins with it. -/
def after? (c : Char) : List Char → Option (List Char)
  | d :: rest => if c = d then some rest else none
  | [] => none

/-- What follows the mark between a date and a time: a letter, or blanks. -/
def afterMark? (s : List Char) : Option (List Char) :=
  match s with
  | 'T' :: rest | 't' :: rest => some rest
  | ' ' :: rest | '\t' :: rest => some (rest.dropWhile fun c => c == ' ' || c == '\t')
  | _ => none

/-- A zone: a letter, or hours and perhaps minutes with a sign. -/
def zone? (s : List Char) : Option (Option (Bool × Nat × Nat)) :=
  match s with
  | ['Z'] => some none
  | sign :: rest => do
    if sign != '-' && sign != '+' then none
    let (hours, rest) ← shortDigits? rest
    let minutes ← match rest with
      | [] => some 0
      | ':' :: rest => do
        let (minutes, rest) ← exactDigits? 2 rest
        if rest.isEmpty then some (Numeral.value minutes) else none
      | _ => none
    return some (sign == '-', Numeral.value hours, minutes)
  | [] => none

/-- The numbers of a date, and of a time of day and a zone after it. -/
def stamp? (s : List Char) : Option Stamp := do
  let (year, s) ← exactDigits? 4 s
  let (month, s) ← shortDigits? (← after? '-' s)
  let (day, s) ← shortDigits? (← after? '-' s)
  let year := Numeral.value year
  if s.isEmpty then return ⟨year, month, day, none, none⟩
  let (hour, s) ← shortDigits? (← afterMark? s)
  let (minute, s) ← exactDigits? 2 (← after? ':' s)
  let (second, s) ← exactDigits? 2 (← after? ':' s)
  let (fraction, s) := match s with
    | '.' :: rest => (rest.takeWhile Char.isDigit, rest.dropWhile Char.isDigit)
    | _ => ([], s)
  let time := some (Numeral.value hour, Numeral.value minute, Numeral.value second, fraction)
  if s.isEmpty then return ⟨year, month, day, time, none⟩
  let zone ← zone? (s.dropWhile fun c => c == ' ' || c == '\t')
  return ⟨year, month, day, time, some zone⟩

/-- A date, whose month and day have two digits each when no time of day follows. -/
def isStamp (s : List Char) : Bool :=
  match stamp? s with
  | none => false
  | some st => st.time.isSome || (st.month.length == 2 && st.day.length == 2)

/-- A text without a line feed at its end. -/
def withoutLineEnd (s : List Char) : List Char := if s.getLast? == some '\n' then s.dropLast else s

/-! ## Tags of plain scalars -/

def resolve (t : Text) : Text :=
  match t.chars? with
  | none | some ['\n'] => standardTag "str"
  | some s =>
    let s := withoutLineEnd s
    if isTruth s then standardTag "bool"
    else if isFloat s then standardTag "float"
    else if isInt s then standardTag "int"
    else if s == "<<".toList then standardTag "merge"
    else if isNull s then standardTag "null"
    else if isStamp s then standardTag "timestamp"
    else if s == ['='] then standardTag "value"
    else if s == ['!'] || s == ['&'] || s == ['*'] then standardTag "yaml"
    else standardTag "str"

/-! ## Values -/

/-- The truth value of a word, in any case. -/
def truthValue (t : Text) : Except ScalarError Bool :=
  match truthWords.find? fun (w, _) => t.lowerCase.isString w with
  | some (_, b) => .ok b
  | none => .error (.truth t.lowerCase)

def withoutUnderscores (t : Text) : Text := t.filter fun c => !c.isChar '_'

def isAsciiSpace (c : Char) : Bool :=
  c == ' ' || c == '\t' || c == '\n' || c == '\x0b' || c == '\x0c' || c == '\r'

/-- The letters that mark a base after a zero. -/
def baseMarks (base : Nat) : List Char :=
  if base = 16 then ['x', 'X'] else if base = 8 then ['o', 'O'] else if base = 2 then ['b', 'B'] else []

def withoutMark (base : Nat) : List Char → List Char
  | '0' :: m :: rest => if (baseMarks base).contains m then rest else '0' :: m :: rest
  | s => s

def maxIntegerDigits : Nat := 4300

/-- The number that a text writes in a base, with white space around it, a sign, and the
mark of the base allowed.  The digits are counted before what follows them is seen. -/
def integer (base : Nat) (t : Text) : Except ScalarError Int :=
  let (negative, s) := Numeral.sign (t.numeral.dropWhile isAsciiSpace)
  let s := withoutMark base s
  let digits := s.takeWhile fun c => (Numeral.digit? base c).isSome
  let behind := (s.drop digits.length).dropWhile isAsciiSpace
  if base = 10 && digits.length > maxIntegerDigits then .error (.integerDigits digits.length)
  else match Numeral.ofDigits? base digits, behind with
    | some n, [] => .ok (if negative then -n else n)
    | _, _ => .error (.integer base t)

/-- The number with the given digits in base sixty, the highest first. -/
def sexagesimal (digits : List Int) : Int := digits.foldl (fun n d => n * 60 + d) 0

/-- The sign of a numeral, and the numeral without it. -/
def signed (t : Text) : Except ScalarError (Bool × Text) :=
  match t with
  | [] => .error .empty
  | c :: rest =>
    if c.isChar '-' then .ok (true, rest)
    else if c.isChar '+' then .ok (false, rest)
    else .ok (false, t)

def intValue (t : Text) : Except ScalarError Int := do
  let (negative, body) ← signed (withoutUnderscores t)
  let isBinary := Text.isString (body.take 2) "0b"
  let isHexadecimal := Text.isString (body.take 2) "0x"
  let n ←
    if Text.isString body "0" then pure 0
    else if isBinary then integer 2 (body.drop 2)
    else if isHexadecimal then integer 16 (body.drop 2)
    else match body with
      | [] => .error .empty
      | c :: _ =>
        if c.isChar '0' then integer 8 body
        else if body.any (Code.isChar ':') then
          ((Text.splitOn (Code.isChar ':') body).mapM (integer 10)).map sexagesimal
        else integer 10 body
  return if negative then -n else n

/-- The floating-point number that a text writes, white space around it allowed. -/
def floating (t : Text) : Except ScalarError Float :=
  let s := (t.numeral.dropWhile isAsciiSpace).reverse.dropWhile isAsciiSpace
  match Numeral.float? s.reverse with
  | some x => .ok x
  | none => .error (.float t)

/-- The floating-point number with the given digits in base sixty, the lowest first and
summed from there; `base` is what the next one counts. -/
def sexagesimalFloat (base : Nat) : List Float → Float → Except ScalarError Float
  | [], sum => .ok sum
  | d :: rest, sum =>
    match Numeral.floatOfInt? base with
    | some b => sexagesimalFloat (base * 60) rest (sum + d * b)
    | none => .error .floatRange

/-- The floating-point number that a text writes, or nothing where it is the word for no
number. -/
def floatValue (t : Text) : Except ScalarError (Option Float) := do
  let (negative, body) ← signed (withoutUnderscores t).lowerCase
  if Text.isString body ".nan" then return none
  let x ←
    if Text.isString body ".inf" then pure (1.0 / 0.0)
    else if body.any (Code.isChar ':') then do
      let digits ← (Text.splitOn (Code.isChar ':') body).mapM floating
      sexagesimalFloat 1 digits.reverse 0
    else floating body
  return some (if negative then -x else x)

def isLeap (year : Nat) : Bool := year % 4 == 0 && (year % 100 != 0 || year % 400 == 0)

def daysIn (year month : Nat) : Nat :=
  if month = 2 then (if isLeap year then 29 else 28)
  else if month = 4 ∨ month = 6 ∨ month = 9 ∨ month = 11 then 30 else 31

def date (year month day : Nat) : Except ScalarError Date :=
  if year = 0 then .error (.year year)
  else if month = 0 ∨ month > 12 then .error .month
  else if day = 0 ∨ day > daysIn year month then .error .day
  else .ok ⟨year, month, day⟩

/-- The millionths of a second that the digits of a fraction write. -/
def microseconds (fraction : List Char) : Nat :=
  let digits := fraction.take 6
  Numeral.value (digits ++ List.replicate (6 - digits.length) '0')

/-- The offset of a zone in minutes, less than a day in either direction. -/
def offset (negative : Bool) (hours minutes : Nat) : Except ScalarError Int :=
  let n := hours * 60 + minutes
  if n ≥ 1440 then .error (.offset negative n) else .ok (if negative then -(n : Int) else n)

/-- The date, or the date and time, that a text writes. -/
def stampValue (t : Text) : Except ScalarError Datum :=
  match (t.chars?.map withoutLineEnd).bind stamp? with
  | none => .error .noMoment
  | some st => do
    let month := Numeral.value st.month
    let day := Numeral.value st.day
    match st.time with
    | none => return .date (← date st.year month day)
    | some (hour, minute, second, fraction) =>
      let zone ← match st.zone with
        | none => pure none
        | some none => pure (some (0 : Int))
        | some (some (negative, hours, minutes)) => (offset negative hours minutes).map some
      let d ← date st.year month day
      if hour > 23 then throw .hour
      else if minute > 59 then throw .minute
      else if second > 59 then throw .second
      else return .moment ⟨d, hour, minute, second, microseconds fraction, zone⟩

end EditorLint.Yaml
