import EditorLint.Decimal.Binary
import Mathlib.Data.Nat.Cast.Field
import Mathlib.Data.Rat.Floor
import Mathlib.Tactic.Linarith
import Mathlib.Tactic.Positivity

/-!
# The values of floating-point numbers

A finite number has an exact value, and what is infinite or not a number has none
(`value?_eq_none`).  Reading the bits of a number gives this value (`value?_eq`); its integer part
is the value rounded toward zero (`truncate_eq`), and it is an integer if its value is
(`isInt_iff`).
-/

namespace EditorLint

def towardZero (r : ℚ) : ℤ := if 0 ≤ r then ⌊r⌋ else ⌈r⌉

theorem towardZero_intCast (n : ℤ) : towardZero n = n := by
  unfold towardZero
  split
  · exact Int.floor_intCast n
  · exact Int.ceil_intCast n

theorem towardZero_neg (r : ℚ) : towardZero (-r) = -towardZero r := by
  rcases lt_trichotomy r 0 with h | h | h
  · have h' : 0 ≤ -r := by linarith
    simp only [towardZero, if_pos h', if_neg (not_le.mpr h), Int.floor_neg]
  · subst h
    simp [towardZero]
  · have h' : ¬0 ≤ -r := by linarith
    simp only [towardZero, if_neg h', if_pos h.le, Int.ceil_neg]

theorem towardZero_div (m k : ℕ) : towardZero ((m : ℚ) / k) = (m / k : ℕ) := by
  have h : (0 : ℚ) ≤ (m : ℚ) / k := by positivity
  have hfloor := Rat.floor_intCast_div_natCast (m : ℤ) k
  simp only [Int.cast_natCast] at hfloor
  simp only [towardZero, if_pos h, hfloor, Int.natCast_ediv]

namespace Binary

def size (b : Binary) : ℚ := b.m * 2 ^ b.q

/-- The number `± m · 2^q`. -/
def value (b : Binary) : ℚ := if b.negative then -b.size else b.size

theorem size_of_nonneg {b : Binary} (h : 0 ≤ b.q) : b.size = (b.m * powerOfTwo b.q.toNat : ℕ) := by
  obtain ⟨k, hk⟩ := Int.eq_ofNat_of_zero_le h
  simp [size, hk, powerOfTwo]

theorem size_of_neg {b : Binary} (h : ¬0 ≤ b.q) :
    b.size = (b.m : ℚ) / (powerOfTwo (-b.q).toNat : ℕ) := by
  obtain ⟨k, hk⟩ := Int.eq_ofNat_of_zero_le (by omega : 0 ≤ -b.q)
  have hq : b.q = -(k : ℤ) := by omega
  simp [size, hq, powerOfTwo, div_eq_mul_inv]

/-- The integer part is the value without its fraction. -/
theorem truncate_eq (b : Binary) : b.truncate = towardZero b.value := by
  have hsize : towardZero b.size =
      (if b.q ≥ 0 then b.m * powerOfTwo b.q.toNat else b.m / powerOfTwo (-b.q).toNat : ℕ) := by
    split
    · next h => rw [size_of_nonneg h, ← Int.cast_natCast, towardZero_intCast]
    · next h => rw [size_of_neg h, towardZero_div]
  cases hneg : b.negative
  · simp only [truncate, value, hneg, Bool.false_eq_true, if_false, hsize]
  · simp only [truncate, value, hneg, if_true, towardZero_neg, hsize]

theorem value_of_isIntegral {b : Binary} (h : b.isIntegral = true) : b.value = b.truncate := by
  have hsize : b.size = towardZero b.size := by
    by_cases hq : 0 ≤ b.q
    · rw [size_of_nonneg hq, ← Int.cast_natCast, towardZero_intCast]
    · -- Without a rest the quotient is a natural number.
      have hrest : b.m % powerOfTwo (-b.q).toNat = 0 := by simpa [isIntegral, hq] using h
      have hpos : (powerOfTwo (-b.q).toNat : ℚ) ≠ 0 := by simp [powerOfTwo]
      rw [size_of_neg hq, towardZero_div, Int.cast_natCast,
        Nat.cast_div (Nat.dvd_of_mod_eq_zero hrest) hpos]
  rw [truncate_eq]
  unfold value
  split
  · rw [towardZero_neg, Int.cast_neg, ← hsize]
  · exact hsize

theorem isIntegral_of_value {b : Binary} {n : ℤ} (h : b.value = n) : b.isIntegral = true := by
  by_cases hq : 0 ≤ b.q
  · simp [isIntegral, hq]
  · have hpos : (powerOfTwo (-b.q).toNat : ℚ) ≠ 0 := by simp [powerOfTwo]
    have hwhole : ∃ k : ℤ, b.size = k := by
      unfold value at h
      split at h
      · exact ⟨-n, by rw [Int.cast_neg, ← h, neg_neg]⟩
      · exact ⟨n, h⟩
    obtain ⟨k, hk⟩ := hwhole
    rw [size_of_neg hq, div_eq_iff hpos] at hk
    have hdvd : (powerOfTwo (-b.q).toNat : ℤ) ∣ b.m := ⟨k, by rw [mul_comm]; exact_mod_cast hk⟩
    have hrest := Nat.mod_eq_zero_of_dvd (Int.natCast_dvd_natCast.mp hdvd)
    simp [isIntegral, hrest]

/-- A number is an integer if its value is. -/
theorem isInt_iff (b : Binary) (n : ℤ) : b.isInt n = true ↔ b.value = n := by
  constructor
  · intro h
    obtain ⟨hintegral, hn⟩ := Bool.and_eq_true_iff.mp h
    rw [value_of_isIntegral hintegral, beq_iff_eq.mp hn]
  · intro h
    have hn : b.truncate = n := by rw [truncate_eq, h, towardZero_intCast]
    simp [isInt, isIntegral_of_value h, hn]

end Binary

namespace FloatValue

open Float.Model UnpackedFloat

/-- The value of a number taken apart, if it is finite. -/
def ofUnpacked? : UnpackedFloat → Option ℚ
  | .finite .positive m e _ => some (m * 2 ^ e)
  | .finite .negative m e _ => some (-(m * 2 ^ e))
  | .zero _ => some 0
  | .infinity _ | .notANumber => none

def isNegative : Sign → Bool
  | .negative => true
  | .positive => false

theorem ofUnpacked?_finite (s : Sign) (m : ℕ) (e : ℤ) (h : 0 < m) :
    ofUnpacked? (.finite s m e h) = some (Binary.value ⟨isNegative s, m, e⟩) := by
  cases s <;> rfl

/-- The value of a number, if it is finite. -/
def value? (x : Float) : Option ℚ := ofUnpacked? x.toModel.unpack

/-- What has no value is not finite. -/
theorem value?_eq_none {x : Float} : value? x = none ↔ x.isFinite = false := by
  show ofUnpacked? x.toModel.unpack = none ↔ x.toModel.unpack.isFinite = false
  cases x.toModel.unpack with
  | finite s =>
    cases s with
    | _ =>
      show some _ = none ↔ true = false
      simp
  | zero =>
    show some _ = none ↔ true = false
    simp
  | infinity | notANumber =>
    show none = none ↔ false = false
    simp

theorem isFinite_eq_false {x : Float} :
    x.isFinite = false ↔ x.isNaN = true ∨ x.isInf = true := by
  show x.toModel.unpack.isFinite = false ↔
    x.toModel.unpack.isNaN = true ∨ x.toModel.unpack.isInf = true
  cases x.toModel.unpack with
  | finite | zero =>
    show true = false ↔ false = true ∨ false = true
    simp
  | infinity =>
    show false = false ↔ false = true ∨ true = true
    simp
  | notANumber =>
    show false = false ↔ true = true ∨ false = true
    simp

theorem isNaN_of_isInf {x : Float} (h : x.isInf = true) : x.isNaN = false := by
  change x.toModel.unpack.isInf = true at h
  show x.toModel.unpack.isNaN = false
  cases hx : x.toModel.unpack with
  | notANumber =>
    rw [hx] at h
    cases h
  | _ => rfl

/-- The numbers that are zero, of either sign, are those with the value zero. -/
theorem sameNumber_zero_iff {x : Float} : Float.sameNumber x 0 = true ↔ value? x = some 0 := by
  show (x.toModel.unpack.compare (.zero .positive) == some .eq) = true ↔
    ofUnpacked? x.toModel.unpack = some 0
  cases x.toModel.unpack with
  | finite s m e hm =>
    have hsize : (m : ℚ) * 2 ^ e ≠ 0 :=
      mul_ne_zero (Nat.cast_ne_zero.mpr hm.ne') (zpow_ne_zero e two_ne_zero)
    cases s with
    | positive =>
      show false = true ↔ some ((m : ℚ) * 2 ^ e) = some 0
      simpa using hsize
    | negative =>
      show false = true ↔ some (-((m : ℚ) * 2 ^ e)) = some 0
      simpa using hsize
  | zero s => exact iff_of_true rfl rfl
  | infinity s =>
    refine iff_of_false ?_ (fun h => by cases h)
    cases s <;> decide
  | notANumber => exact iff_of_false (by decide) (fun h => by cases h)

/-! ## Bits -/

theorem toNat_unpackExponent (x : Float) :
    (@unpackExponent .binary64 x.toBits.toBitVec).toNat = Binary.exponentBits x := by
  simp [unpackExponent, Binary.exponentBits, powerOfTwo, BitVec.extractLsb,
    Nat.shiftRight_eq_div_pow]

theorem toNat_unpackMantissa (x : Float) :
    (@unpackMantissa .binary64 x.toBits.toBitVec).toNat = Binary.fractionBits x := by
  simp [unpackMantissa, Binary.fractionBits, powerOfTwo, BitVec.extractLsb]

theorem toNat_unpackSign (x : Float) :
    (@unpackSign .binary64 x.toBits.toBitVec).toNat = x.toBits.toNat / powerOfTwo 63 := by
  have h : x.toBits.toNat < 2 ^ 64 := x.toBits.toNat_lt
  show (BitVec.extractLsb 63 63 x.toBits.toBitVec).toNat = _
  simp [powerOfTwo, BitVec.extractLsb, Nat.shiftRight_eq_div_pow]
  omega

theorem isNegative_unpackSign (x : Float) :
    isNegative (.ofBitVec (@unpackSign .binary64 x.toBits.toBitVec)) =
      (x.toBits.toNat / powerOfTwo 63 == 1) := by
  have hbound : x.toBits.toNat / powerOfTwo 63 < 2 := by
    rw [← toNat_unpackSign]
    exact BitVec.isLt _
  have hpositive : @unpackSign .binary64 x.toBits.toBitVec = 0#1 ↔
      x.toBits.toNat / powerOfTwo 63 = 0 := by
    rw [← toNat_unpackSign, ← BitVec.toNat_inj]
    rfl
  unfold Sign.ofBitVec
  split
  · next h => simp [isNegative, hpositive.mp h]
  · next h =>
    have hsome := mt hpositive.mpr h
    have hone : x.toBits.toNat / powerOfTwo 63 = 1 :=
      Nat.le_antisymm (Nat.le_of_lt_succ hbound) (Nat.pos_of_ne_zero hsome)
    simp [isNegative, hone]

/-- The mantissa of a normal number has one bit more than is written. -/
theorem toNat_normal (v : BitVec 52) : (1#1 ++ v).toNat = v.toNat + powerOfTwo 52 := by
  have h := Nat.two_pow_add_eq_or_of_lt v.isLt 1
  rw [BitVec.toNat_append, Nat.add_comm]
  simpa [powerOfTwo, Nat.shiftLeft_eq] using h.symm

/-! ## Values by exponent -/

section Unpack

variable {b : BitVec 64}

theorem ofUnpacked?_last (hlast : @unpackExponent .binary64 b = -1#11) :
    ofUnpacked? (unpack .binary64 b) = none := by
  by_cases hzero : @unpackMantissa .binary64 b = 0#52
  · have hunpack : unpack .binary64 b = .infinity _ := (if_pos hlast).trans (if_pos hzero)
    rw [hunpack]
    rfl
  · have hunpack : unpack .binary64 b = .notANumber := (if_pos hlast).trans (if_neg hzero)
    rw [hunpack]
    rfl

/-- With the first exponent the mantissa is all that is written, and may be zero. -/
theorem ofUnpacked?_first (hlast : ¬@unpackExponent .binary64 b = -1#11)
    (hfirst : @unpackExponent .binary64 b = 0#11) :
    ofUnpacked? (unpack .binary64 b) = some (Binary.value
      ⟨isNegative (.ofBitVec (@unpackSign .binary64 b)), (@unpackMantissa .binary64 b).toNat,
        -1074⟩) := by
  have hexponent : ((@unpackExponent .binary64 b).toNat : ℤ) - (1023 + 52) + 1 = -1074 := by
    rw [hfirst]
    rfl
  by_cases hzero : @unpackMantissa .binary64 b = 0#52
  · have hunpack : unpack .binary64 b = .zero _ :=
      (if_neg hlast).trans ((if_pos hfirst).trans (dif_pos hzero))
    rw [hunpack, hzero]
    show some (0 : ℚ) = some (Binary.value ⟨_, 0, _⟩)
    simp [Binary.value, Binary.size]
  · have hunpack : unpack .binary64 b = .finite _ _ _ _ :=
      (if_neg hlast).trans ((if_pos hfirst).trans (dif_neg hzero))
    rw [hunpack, ofUnpacked?_finite, ← hexponent]
    rfl

theorem ofUnpacked?_normal (hlast : ¬@unpackExponent .binary64 b = -1#11)
    (hfirst : ¬@unpackExponent .binary64 b = 0#11) :
    ofUnpacked? (unpack .binary64 b) = some (Binary.value
      ⟨isNegative (.ofBitVec (@unpackSign .binary64 b)),
        (@unpackMantissa .binary64 b).toNat + powerOfTwo 52,
        (@unpackExponent .binary64 b).toNat - 1075⟩) := by
  have hunpack : unpack .binary64 b = .finite _ _ _ _ := (if_neg hlast).trans (if_neg hfirst)
  rw [hunpack, ofUnpacked?_finite, ← toNat_normal]
  rfl

end Unpack

/-- The bits of a number are read as its value. -/
theorem value?_eq (x : Float) : value? x = (Binary.ofFloat? x).map Binary.value := by
  have hlast : @unpackExponent .binary64 x.toBits.toBitVec = -1#11 ↔
      Binary.exponentBits x = 2047 := by
    rw [← toNat_unpackExponent, ← BitVec.toNat_inj]
    rfl
  have hfirst : @unpackExponent .binary64 x.toBits.toBitVec = 0#11 ↔
      Binary.exponentBits x = 0 := by
    rw [← toNat_unpackExponent, ← BitVec.toNat_inj]
    rfl
  show ofUnpacked? (unpack .binary64 x.toBits.toBitVec) = _
  simp only [Binary.ofFloat?]
  split
  · next h => exact ofUnpacked?_last (hlast.mpr h)
  · next h =>
    split
    · next h' =>
      rw [ofUnpacked?_first (mt hlast.mp h) (hfirst.mpr h'), isNegative_unpackSign,
        toNat_unpackMantissa]
      rfl
    · next h' =>
      rw [ofUnpacked?_normal (mt hlast.mp h) (mt hfirst.mp h'), isNegative_unpackSign,
        toNat_unpackMantissa, toNat_unpackExponent]
      rfl

end FloatValue

end EditorLint
