import EditorLint.Decimal.Shortest
import EditorLint.Text.Basic

/-!
# The text of a floating-point number

The digits are those of the shortest decimal.  A number whose first digit stands
for `10^-4` to `10^15` is written positionally and always has a point; any other
has one digit before the point, no point when there is only one digit, and an
exponent with a sign and at least two digits.
-/

namespace EditorLint.Decimal

/-- The text of `d`, which is not zero, positionally when its first digit stands
for a power of ten from `-4` to `15`. -/
def render (d : Decimal) : Text :=
  let digits := Text.ofNat d.digits
  let top : Int := d.exponent + digits.length - 1
  let zeros (n : Nat) : Text := List.replicate n (.scalar '0')
  if -4 ≤ top && top < 16 then
    if d.exponent ≥ 0 then digits ++ zeros d.exponent.toNat ++ ".0"
    else if top ≥ 0 then
      digits.take (top.toNat + 1) ++ "." ++ digits.drop (top.toNat + 1)
    else "0." ++ zeros ((-top).toNat - 1) ++ digits
  else
    let mantissa : Text := match digits with
      | [one] => [one]
      | one :: more => one :: .scalar '.' :: more
      | [] => []
    let sign : Text := if top < 0 then "-" else "+"
    mantissa ++ "e" ++ sign ++ Text.padded 2 top.natAbs

end EditorLint.Decimal

namespace EditorLint.Text

def ofFloat (x : Float) : Text :=
  match Binary.ofFloat? x with
  | none => if x.isNaN then "nan" else if x < 0 then "-inf" else "inf"
  | some b =>
    let sign : Text := if b.negative then "-" else []
    if b.m = 0 then sign ++ "0.0" else sign ++ (Decimal.shortest b.m b.q).render

end EditorLint.Text
