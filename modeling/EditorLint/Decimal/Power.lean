/-!
# Powers of two and of ten

The powers that the arithmetic of floating-point numbers and of numerals is about.
-/

namespace EditorLint

def powerOfTwo (n : Nat) : Nat := Nat.pow 2 n

def powerOfTen (n : Nat) : Nat := Nat.pow 10 n

end EditorLint
