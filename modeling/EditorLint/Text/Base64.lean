/-!
# Base64

Decoding as mail readers do it: characters outside the alphabet are passed over, and
padding that completes a group of four ends the text.
-/

namespace EditorLint.Base64

/-- Why a text is not base64. -/
inductive Problem where
  | padding
  | length (characters : Nat)
  deriving DecidableEq, Repr

/-- The six bits of a character of the alphabet. -/
def bits? (c : Char) : Option Nat :=
  if 'A' ≤ c ∧ c ≤ 'Z' then some (c.toNat - 'A'.toNat)
  else if 'a' ≤ c ∧ c ≤ 'z' then some (c.toNat - 'a'.toNat + 26)
  else if '0' ≤ c ∧ c ≤ '9' then some (c.toNat - '0'.toNat + 52)
  else if c = '+' then some 62
  else if c = '/' then some 63
  else none

/-- What has been read of a group of four: how many characters, the bits left over
from them, the padding since the last one, and the bytes so far, the last one first. -/
structure Group where
  size : Nat
  left : Nat
  pads : Nat
  bytes : List UInt8

def Group.add (g : Group) (bits : Nat) : Group :=
  match g.size with
  | 0 => ⟨1, bits, 0, g.bytes⟩
  | 1 => ⟨2, bits % 16, 0, .ofNat (g.left * 4 + bits / 16) :: g.bytes⟩
  | 2 => ⟨3, bits % 4, 0, .ofNat (g.left * 16 + bits / 4) :: g.bytes⟩
  | _ => ⟨0, 0, 0, .ofNat (g.left * 64 + bits) :: g.bytes⟩

def decodeRest : Group → List Char → Except Problem (List UInt8)
  | g, [] =>
    if g.size = 0 then .ok g.bytes.reverse
    else if g.size = 1 then .error (.length (g.bytes.length / 3 * 4 + 1))
    else .error .padding
  | g, c :: rest =>
    if c = '=' then
      if g.size ≥ 2 ∧ g.size + g.pads + 1 ≥ 4 then .ok g.bytes.reverse
      else decodeRest (if g.size ≥ 2 then { g with pads := g.pads + 1 } else g) rest
    else match bits? c with
      | none => decodeRest g rest
      | some bits => decodeRest (g.add bits) rest

def decode (cs : List Char) : Except Problem (List UInt8) := decodeRest ⟨0, 0, 0, []⟩ cs

def Problem.message : Problem → String
  | padding => "Incorrect padding"
  | length n =>
    "Invalid base64-encoded string: number of data characters (" ++ toString n
      ++ ") cannot be 1 more than a multiple of 4"

end EditorLint.Base64
