import EditorLint.Datum.Literal
import EditorLint.Failure
import EditorLint.Decimal.Read
import EditorLint.Text.Blank

/-!
# Checks of settings

A check turns a datum into a setting, or says what is wrong with it and where.
Checks of the parts of a setting run in order and their findings are collected; only
a failure of another kind, such as a home directory that cannot be found, breaks a
check off.

Embedded: what the library for settings does to the fields of the models, in its default mode,
and its findings.
-/

namespace EditorLint

/-- What a check ends with: a setting, findings, or a failure that broke it off. -/
inductive Checked (α : Type) where
  | valid (a : α)
  | invalid (issues : List Issue)
  | broken (f : Failure)

namespace Checked

def map {α β : Type} (f : α → β) : Checked α → Checked β
  | valid a => valid (f a)
  | invalid issues => invalid issues
  | broken e => broken e

/-- Two checks, one after the other; the findings of both are collected. -/
def both {α β : Type} (x : Checked α) (y : Checked β) : Checked (α × β) :=
  match x, y with
  | broken e, _ => broken e
  | _, broken e => broken e
  | valid a, valid b => valid (a, b)
  | valid _, invalid issues => invalid issues
  | invalid issues, valid _ => invalid issues
  | invalid issues, invalid more => invalid (issues ++ more)

def andThen {α β : Type} (x : Checked α) (f : α → Checked β) : Checked β :=
  match x with
  | valid a => f a
  | invalid issues => invalid issues
  | broken e => broken e

/-- Checks of a list of values, in order. -/
def all {α : Type} : List (Checked α) → Checked (List α)
  | [] => valid []
  | x :: rest => (both x (all rest)).map fun (a, as) => a :: as

def toExcept {α : Type} : Checked α → Except Failure α
  | valid a => .ok a
  | invalid issues => .error (.invalid issues)
  | broken e => .error e

end Checked

namespace Check

abbrev Loc := List Text

def issue {α : Type} (kind : String) (loc : Loc) (message : Text) (input : Datum) : Checked α :=
  .invalid [⟨kind, loc, message, input⟩]

def broken {α : Type} (loc : Loc) (message : Text) (input : Datum) : Checked α :=
  issue "value_error" loc ("Value error, " ++ message) input

/-- What another check accepts, unless a rule has something to say against it. -/
def ruled {α : Type} (check : Loc → Datum → Checked α) (objection : α → Option Text) (loc : Loc)
    (d : Datum) : Checked α :=
  (check loc d).andThen fun a =>
    match objection a with
    | some message => broken loc message d
    | none => .valid a

/-- The field of a mapping, if it is set. -/
def given (name : String) (es : Entries) : Option Datum := Entries.get? (.string name) es

/-- A field that is checked when it is set, and has a default when it is not. -/
def field {α : Type} (loc : Loc) (es : Entries) (name : String) (default : α)
    (check : Loc → Datum → Checked α) : Checked α :=
  match given name es with
  | none => .valid default
  | some d => check (loc ++ [Text.ofString name]) d

def optionalField {α : Type} (loc : Loc) (es : Entries) (name : String)
    (check : Loc → Datum → Checked α) : Checked (Option α) :=
  match given name es with
  | none => .valid none
  | some d => (check (loc ++ [Text.ofString name]) d).map some

/-! ## Texts and words -/

def text (loc : Loc) (d : Datum) : Checked Text :=
  match d with
  | .text t => .valid t
  | .bytes bs =>
    match Utf8.decode bs with
    | .ok cs => .valid (Text.ofChars cs)
    | .error _ =>
      issue "string_unicode" loc
        "Input should be a valid string, unable to parse raw data as a unicode string" d
  | _ => issue "string_type" loc "Input should be a valid string" d

def nullable {α : Type} (check : Loc → Datum → Checked α) (loc : Loc) (d : Datum) :
    Checked (Option α) :=
  match d with
  | .null => .valid none
  | d => (check loc d).map some

/-- Words in quotes, with commas and an `or` before the last. -/
def choices : List String → Text
  | [] => []
  | [w] => "'" ++ w ++ "'"
  | [v, w] => "'" ++ v ++ "' or '" ++ w ++ "'"
  | w :: rest => "'" ++ w ++ "', " ++ choices rest

/-- One of some words, each with what it stands for. -/
def word {α : Type} (options : List (String × α)) (loc : Loc) (d : Datum) : Checked α :=
  let found : Option (String × α) := match d with
    | .text t => options.find? fun (w, _) => t.isString w
    | _ => none
  match found with
  | some (_, a) => .valid a
  | none => issue "literal_error" loc ("Input should be " ++ choices (options.map (·.1))) d

/-! ## Truth values -/

/-- The words for true and false, in lower case. -/
def truthWords : List (String × Bool) :=
  [("0", false), ("off", false), ("f", false), ("false", false), ("n", false), ("no", false),
    ("1", true), ("on", true), ("t", true), ("true", true), ("y", true), ("yes", true)]

def truthWord? (t : Text) : Option Bool :=
  (truthWords.find? fun (w, _) => t.toLower.isString w).map (·.2)

/-- The truth value of a number, if it is zero or one. -/
def truthNumber? (n : Int) : Option Bool :=
  if n = 0 then some false else if n = 1 then some true else none

/-- Whether a number fits into 64 bits with a sign. -/
def isWord64 (n : Int) : Bool := -(powerOfTwo 63 : Int) ≤ n && n < (powerOfTwo 63 : Int)

/-- The integer that a floating-point number is, if it is one of 64 bits. -/
def word64OfFloat? (x : Float) : Option Int :=
  match Binary.ofFloat? x with
  | none => none
  | some b =>
    let n := b.truncate
    let limit : Int := powerOfTwo 63
    if b.isIntegral && decide (-limit < n) && decide (n < limit) then some n else none

/-- A truth value, a word for one, or one of the numbers zero and one. -/
def truth (loc : Loc) (d : Datum) : Checked Bool :=
  let unclear : Checked Bool :=
    issue "bool_parsing" loc "Input should be a valid boolean, unable to interpret input" d
  let wrong : Checked Bool := issue "bool_type" loc "Input should be a valid boolean" d
  let orUnclear : Option Bool → Checked Bool
    | some b => .valid b
    | none => unclear
  match d with
  | .bool b => .valid b
  | .text t => orUnclear (truthWord? t)
  | .bytes bs => orUnclear ((Utf8.decode bs).toOption.bind fun cs => truthWord? (Text.ofChars cs))
  | .int n => if isWord64 n then orUnclear (truthNumber? n) else wrong
  | .float x =>
    match word64OfFloat? x with
    | some n => orUnclear (truthNumber? n)
    | none => wrong
  | _ => wrong

/-! ## Numbers -/

/-- A numeral with single underscores between its characters, without them. -/
def withoutUnderscores? (s : List Char) : Option (List Char) :=
  let pairs := s.zip (s.drop 1)
  if s.head? == some '_' || s.getLast? == some '_' || !s.contains '_'
      || pairs.any (fun (a, b) => a == '_' && b == '_') then none
  else some (s.filter (· != '_'))

/-- The characters of a text with the white space around it gone. -/
def trimmed? (t : Text) : Option (List Char) := t.trim.chars?

/-- The number that a text writes, blanks around it and underscores in it allowed. -/
def floatOfText? (t : Text) : Option Float :=
  match trimmed? t with
  | none => none
  | some s =>
    match Numeral.float? s with
    | some x => some x
    | none =>
      (t.chars?.bind withoutUnderscores?).bind fun s =>
        (trimmed? (Text.ofChars s)).bind Numeral.float?

/-- A floating-point number, or an integer, a truth value or a text that stands for
one. -/
def float (loc : Loc) (d : Datum) : Checked Float :=
  let wrong : Checked Float := issue "float_type" loc "Input should be a valid number" d
  let ofText (t : Option Float) : Checked Float := match t with
    | some x => .valid x
    | none =>
      issue "float_parsing" loc "Input should be a valid number, unable to parse string as a number" d
  match d with
  | .float x => .valid x
  | .bool b => .valid (if b then 1 else 0)
  | .int n =>
    match Numeral.floatOfInt? n with
    | some x => .valid x
    | none => wrong
  | .text t => ofText (floatOfText? t)
  | .bytes bs => ofText ((Utf8.decode bs).toOption.bind fun cs => floatOfText? (Text.ofChars cs))
  | _ => wrong

/-- The most digits of an integer in a text. -/
def maxIntegerDigits : Nat := 4300

/-- The integer that a plain numeral writes: perhaps a minus sign, and digits that
begin with zero only when that is all. -/
def plainInt? (s : List Char) : Option Int :=
  let (negative, digits) := match s with
    | '-' :: rest => (true, rest)
    | _ => (false, s)
  let leading := digits.head? == some '0' && digits.length > 1
  if leading || !digits.all Char.isDigit then none
  else (Numeral.ofDigits? 10 digits).map fun n => if negative then -(n : Int) else n

/-- A numeral after a first zero, with the zeros and single underscores that lead it
gone. -/
def afterZero : (underscore : Bool) → List Char → Option (List Char)
  | underscore, [] => some [if underscore then '_' else '0']
  | underscore, c :: rest =>
    if c == '0' then afterZero false rest
    else if c == '_' then (if underscore then none else afterZero true rest)
    else if c.isDigit then some (c :: rest)
    else if c == '.' then some ('0' :: c :: rest)
    else none

def withoutZeros? : List Char → Option (List Char)
  | '0' :: rest => afterZero false rest
  | c :: rest => if c.isDigit || c == '-' then some (c :: rest) else none
  | [] => none

/-- A numeral with a point and zeros at its end gone. -/
def withoutZeroFraction (s : List Char) : List Char :=
  let fraction := (s.dropWhile (· != '.')).drop 1
  if s.contains '.' && fraction.all (· == '0') then s.takeWhile (· != '.') else s

/-- A plain numeral made of one with blanks, a plus sign, leading zeros, a fraction
of zeros, or underscores. -/
def cleanInt? (t : Text) : Option (List Char) := do
  let s ← trimmed? t
  let s ← match s with
    | '+' :: '-' :: _ => none
    | '+' :: rest => some rest
    | s => some s
  let s ← withoutZeros? s
  let s := withoutZeroFraction s
  match withoutUnderscores? s with
  | some s => some s
  | none => if s.length = t.length then none else some s

/-- What a text is as an integer: nothing when it is none, `none` inside when it is
too long. -/
def intOfText? (t : Text) : Option (Option Int) :=
  let plain := t.chars?.bind plainInt?
  let digits := match t with
    | .scalar '-' :: rest => rest.length
    | t => t.length
  match plain with
  | some n => some (if digits > maxIntegerDigits then none else some n)
  | none => do
    let s ← cleanInt? t
    if s.length > maxIntegerDigits then none else (plainInt? s).map some

/-- An integer, or a truth value, a whole floating-point number or a text that stands
for one. -/
def int (loc : Loc) (d : Datum) : Checked Int :=
  let tooLong : Checked Int :=
    issue "int_parsing_size" loc
      "Unable to parse input string as an integer, exceeded maximum size" d
  let ofText : Option (Option Int) → Checked Int
    | some (some n) => .valid n
    | some none => tooLong
    | none =>
      issue "int_parsing" loc
        "Input should be a valid integer, unable to parse string as an integer" d
  match d with
  | .int n => .valid n
  | .bool b => .valid (if b then 1 else 0)
  | .float x =>
    match Binary.ofFloat? x with
    | none => issue "finite_number" loc "Input should be a finite number" d
    | some b =>
      if !b.isIntegral then
        issue "int_from_float" loc
          "Input should be a valid integer, got a number with a fractional part" d
      else match word64OfFloat? x with
        | some n => .valid n
        | none => tooLong
  | .text t => ofText (intOfText? t)
  | .bytes bs => ofText ((Utf8.decode bs).toOption.bind fun cs => intOfText? (Text.ofChars cs))
  | _ => issue "int_type" loc "Input should be a valid integer" d

/-! ## Lists and sections -/

def places (loc : Loc) (n : Nat) : List Loc := (List.range n).map fun i => loc ++ [Text.ofNat i]

def list {α : Type} (check : Loc → Datum → Checked α) (loc : Loc) (d : Datum) : Checked (List α) :=
  let items (ds : List Datum) := Checked.all (((places loc ds.length).zip ds).map fun (l, d) => check l d)
  match d.opened with
  | .list ds => items ds
  | .set ds => items ds
  | .pair a b => items [a, b]
  | _ => issue "list_type" loc "Input should be a valid list" d

/-- A mapping of settings, of a kind that has a name. -/
def mapping {α : Type} (kind : String) (check : Loc → Entries → Checked α) (loc : Loc) (d : Datum) :
    Checked α :=
  match d.opened with
  | .mapping es => check loc es
  | _ =>
    issue "model_type" loc ("Input should be a valid dictionary or instance of " ++ kind) d

end Check

end EditorLint
