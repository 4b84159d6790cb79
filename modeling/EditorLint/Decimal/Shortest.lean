import EditorLint.Decimal.Binary

/-!
# The shortest decimal of a binary number

Among the decimals that read back as a given double, the shortest has the fewest
significant digits, and among those of that length it is the nearest.  The reals
that read back as `m · 2^q` form an interval around it; its ends belong to it
when `m` is even.  On the grid of decimals with `n` significant digits only the
two neighbours of the number need to be tried: a grid point lies in the interval
only if one of the neighbours does.

All arithmetic is on natural numbers: every quantity is scaled by one power of
two and one power of ten.
-/

namespace EditorLint

/-- The number `digits · 10^exponent`. -/
structure Decimal where
  digits : Nat
  exponent : Int
  deriving DecidableEq, Repr

namespace Decimal

/-- The same number without trailing zeros, with fuel for their count. -/
def stripZeros : Nat → Decimal → Decimal
  | 0, d => d
  | fuel + 1, d =>
    if d.digits ≠ 0 ∧ d.digits % 10 = 0 then stripZeros fuel ⟨d.digits / 10, d.exponent + 1⟩ else d

/-- The number of decimal digits of `n`, one for zero. -/
def width (n : Nat) : Nat := (Nat.toDigits 10 n).length

/-- A positive number and the interval that rounds to it, over one denominator:
the number is `num / den`, the interval goes from `low / den` to `high / den`. -/
structure Neighbourhood where
  low : Nat
  num : Nat
  high : Nat
  den : Nat
  closed : Bool

/-- The neighbourhood of `m · 2^q`.  Below a power of two the doubles are twice as
dense, unless the exponent is the least one. -/
def Neighbourhood.ofBinary (m : Nat) (q : Int) : Neighbourhood :=
  let up := if q ≥ 0 then powerOfTwo q.toNat else 1
  let down := if q ≥ 0 then 1 else powerOfTwo (-q).toNat
  let below := if m = powerOfTwo 52 ∧ q > -1074 then 1 else 2
  ⟨(4 * m - below) * up, 4 * m * up, (4 * m + 2) * up, 4 * down, m % 2 == 0⟩

/-- Whether `digits · 10^exponent` lies in the neighbourhood. -/
def Neighbourhood.contains (nb : Neighbourhood) (d : Decimal) : Bool :=
  let value := if d.exponent ≥ 0 then d.digits * powerOfTen d.exponent.toNat * nb.den else d.digits * nb.den
  let scale := if d.exponent ≥ 0 then 1 else powerOfTen (-d.exponent).toNat
  if nb.closed then nb.low * scale ≤ value && value ≤ nb.high * scale
  else nb.low * scale < value && value < nb.high * scale

/-- The power of ten of the first digit of `num / den`: the `e` with
`10^e ≤ num / den < 10^(e+1)`. -/
def magnitude (num den : Nat) : Int :=
  let guess : Int := (width num : Int) - (width den : Int)
  let reached : Bool :=
    if guess ≥ 0 then den * powerOfTen guess.toNat ≤ num else den ≤ num * powerOfTen (-guess).toNat
  if reached then guess else guess - 1

/-- The neighbour on the grid of step `10^e` that lies in the neighbourhood, the
nearer one when both do. -/
def onGrid (nb : Neighbourhood) (e : Int) : Option Decimal :=
  let num := if e ≥ 0 then nb.num else nb.num * powerOfTen (-e).toNat
  let den := if e ≥ 0 then nb.den * powerOfTen e.toNat else nb.den
  let lower : Decimal := ⟨num / den, e⟩
  let upper : Decimal := ⟨num / den + 1, e⟩
  match nb.contains lower, nb.contains upper with
  | true, true =>
    let rest := 2 * (num % den)
    if rest < den || (rest == den && lower.digits % 2 == 0) then some lower else some upper
  | true, false => some lower
  | false, true => some upper
  | false, false => none

/-- The first grid with a hit, from `n` digits on, with fuel for the grids. -/
def search (nb : Neighbourhood) (top : Int) : Nat → Nat → Decimal
  | 0, n => ⟨0, top - n⟩
  | fuel + 1, n =>
    match onGrid nb (top - (n : Int) + 1) with
    | some d => if d.digits = 0 then search nb top fuel (n + 1) else stripZeros 20 d
    | none => search nb top fuel (n + 1)

/-- The shortest decimal of `m · 2^q`; seventeen digits always suffice. -/
def shortest (m : Nat) (q : Int) : Decimal :=
  if m = 0 then ⟨0, 0⟩
  else
    let nb := Neighbourhood.ofBinary m q
    search nb (magnitude nb.num nb.den) 18 1

end Decimal

end EditorLint
