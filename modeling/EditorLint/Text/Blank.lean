import EditorLint.Text.Basic

/-!
# Blank characters

Two sets: the characters with the Unicode property White_Space, and the larger
set that also counts the four information separators U+001C to U+001F.
-/

namespace EditorLint

def Char.isWhiteSpace (c : Char) : Bool :=
  let n := c.toNat
  (0x9 ≤ n && n ≤ 0xD) || n == 0x20 || n == 0x85 || n == 0xA0 || n == 0x1680
    || (0x2000 ≤ n && n ≤ 0x200A) || n == 0x2028 || n == 0x2029 || n == 0x202F
    || n == 0x205F || n == 0x3000

def Char.isBlank (c : Char) : Bool :=
  Char.isWhiteSpace c || (0x1C ≤ c.toNat && c.toNat ≤ 0x1F)

def Code.isBlank : Code → Bool
  | .scalar c => Char.isBlank c
  | .surrogate _ => false

def Code.isWhiteSpace : Code → Bool
  | .scalar c => Char.isWhiteSpace c
  | .surrogate _ => false

namespace Text

/-- A text without the codes of `p` at its two ends. -/
def trimBy (p : Code → Bool) (t : Text) : Text :=
  ((t.dropWhile p).reverse.dropWhile p).reverse

def strip (t : Text) : Text := t.trimBy Code.isBlank

def trim (t : Text) : Text := t.trimBy Code.isWhiteSpace

end Text

end EditorLint
