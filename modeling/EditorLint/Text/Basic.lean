/-!
# Texts

A text is a list of codes.  A code is a Unicode scalar value, or one half of a
surrogate pair standing alone: escapes such as `\ud800` in a report or a
configuration file can name half a pair, and the half travels with the text
until something tries to encode it.

What is here: the order and the numbers of codes, literals as texts, decimal
numerals, and the few list operations on texts that the rest of the library
names (`join`, `splitOn`, `splitBy`).
-/

namespace EditorLint

/-- One element of a text: a scalar value, or the surrogate `0xD800 + n`
standing alone. -/
inductive Code where
  | scalar (c : Char)
  | surrogate (n : Fin 0x800)
  deriving DecidableEq, Repr, Inhabited

namespace Code

def value : Code → Nat
  | scalar c => c.toNat
  | surrogate n => 0xD800 + n.val

/-- The code with a number, up to `0x10FFFF`. -/
def ofNat? (n : Nat) : Option Code :=
  if h : n.isValidChar then some (scalar (Char.ofNatAux n h))
  else if h : 0xD800 ≤ n ∧ n < 0xE000 then some (surrogate ⟨n - 0xD800, by omega⟩)
  else none

/-- Whether the code is the character `c`. -/
def isChar (c : Char) : Code → Bool
  | scalar d => d == c
  | surrogate _ => false

/-- ASCII lower case; every other code is left alone. -/
def toLower : Code → Code
  | scalar c => scalar c.toLower
  | surrogate n => surrogate n

/-- ASCII upper case; every other code is left alone. -/
def toUpper : Code → Code
  | scalar c => scalar c.toUpper
  | surrogate n => surrogate n

end Code

abbrev Text := List Code

namespace Text

def ofChars (cs : List Char) : Text := cs.map .scalar

def ofString (s : String) : Text := ofChars s.toList

instance : Coe String Text := ⟨ofString⟩

/-- The characters of a text that has no lone surrogate. -/
def chars? : Text → Option (List Char)
  | [] => some []
  | .scalar c :: rest => (chars? rest).map (c :: ·)
  | .surrogate _ :: _ => none

theorem chars?_ofChars (cs : List Char) : chars? (ofChars cs) = some cs := by
  induction cs with
  | nil => rfl
  | cons c cs ih => simp_all [ofChars, chars?]

/-- The characters of a text, with U+FFFD for each lone surrogate. -/
def shown (t : Text) : List Char :=
  t.map fun
    | .scalar c => c
    | .surrogate _ => '\uFFFD'

def toLower (t : Text) : Text := t.map Code.toLower

def toUpper (t : Text) : Text := t.map Code.toUpper

def ofNat (n : Nat) : Text := ofChars (Nat.toDigits 10 n)

/-- The decimal numeral of an integer, with `-` in front of a negative one. -/
def ofInt : Int → Text
  | .ofNat n => ofNat n
  | .negSucc n => .scalar '-' :: ofNat (n + 1)

/-- A numeral padded with zeros on the left to at least `width` digits. -/
def padded (width n : Nat) : Text :=
  let digits := ofNat n
  List.replicate (width - digits.length) (.scalar '0') ++ digits

/-- The lower-case hexadecimal numeral of `n`, padded with zeros to `width` digits. -/
def hex (width n : Nat) : Text :=
  let digits := ofChars (Nat.toDigits 16 n)
  List.replicate (width - digits.length) (.scalar '0') ++ digits

/-- A text with blanks at its end up to at least `width` codes. -/
def padRight (width : Nat) (t : Text) : Text :=
  t ++ List.replicate (width - t.length) (.scalar ' ')

/-- Texts with a separator between neighbours. -/
def join (sep : Text) : List Text → Text
  | [] => []
  | [t] => t
  | t :: rest => t ++ sep ++ join sep rest

/-- The pieces of a text between occurrences of a code; always at least one. -/
def splitOn (p : Code → Bool) : Text → List Text
  | [] => [[]]
  | c :: rest =>
    if p c then [] :: splitOn p rest
    else match splitOn p rest with
      | [] => [[c]]
      | piece :: pieces => (c :: piece) :: pieces

/-- The pieces of a text between non-overlapping occurrences of a separator,
searched from the left. -/
def splitBy (sep : Text) (t : Text) : List Text :=
  go t.length [] t
where
  /-- One occurrence at a time; `seen` is the current piece, reversed. -/
  go : Nat → Text → Text → List Text
    | 0, seen, rest => [seen.reverse ++ rest]
    | _ + 1, seen, [] => [seen.reverse]
    | fuel + 1, seen, c :: rest =>
      if !sep.isEmpty && sep.isPrefixOf (c :: rest) then
        seen.reverse :: go fuel [] ((c :: rest).drop sep.length)
      else go fuel (c :: seen) rest

/-- Order by code point, the shorter first when one begins the other. -/
def le : Text → Text → Bool
  | [], _ => true
  | _ :: _, [] => false
  | c :: s, d :: t => c.value < d.value || (c.value == d.value && le s t)

def isString (t : Text) (s : String) : Bool := t == ofString s

end Text

end EditorLint
