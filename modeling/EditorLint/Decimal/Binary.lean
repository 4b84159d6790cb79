import EditorLint.Decimal.Power

/-!
# Binary floating-point numbers

A finite number of double precision is `± m · 2^q` with natural `m` and integer
`q`.  What is here reads the two off the bits and does with them, exactly, what
the rest of the library needs: truncation, comparison with an integer, and the
two ends of the interval of reals that round to the number.
-/

namespace EditorLint

/-- The finite number `± m · 2^q`. -/
structure Binary where
  negative : Bool
  m : Nat
  q : Int
  deriving DecidableEq, Repr

namespace Binary

def fractionBits (x : Float) : Nat := x.toBits.toNat % powerOfTwo 52

def exponentBits (x : Float) : Nat := x.toBits.toNat / powerOfTwo 52 % powerOfTwo 11

/-- A finite double as `± m · 2^q`; nothing for the infinities and NaN. -/
def ofFloat? (x : Float) : Option Binary :=
  let f := fractionBits x
  let e := exponentBits x
  let negative := x.toBits.toNat / powerOfTwo 63 == 1
  if e = 2047 then none
  else if e = 0 then some ⟨negative, f, -1074⟩
  else some ⟨negative, f + powerOfTwo 52, (e : Int) - 1075⟩

def truncate (b : Binary) : Int :=
  let n := if b.q ≥ 0 then b.m * powerOfTwo b.q.toNat else b.m / powerOfTwo (-b.q).toNat
  if b.negative then -n else n

def isIntegral (b : Binary) : Bool :=
  b.q ≥ 0 || b.m % powerOfTwo (-b.q).toNat == 0

/-- Whether the number is the integer `n`. -/
def isInt (b : Binary) (n : Int) : Bool := b.isIntegral && b.truncate == n

end Binary

/-- Numbers that are the same number: `0` and `-0` are, and NaN is not even itself. -/
def Float.sameNumber (x y : Float) : Bool := x == y

end EditorLint
