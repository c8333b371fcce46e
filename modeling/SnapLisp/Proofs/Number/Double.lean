import Mathlib
import SnapLisp.Number.Literal

/-!
# The fields of a double

The fields of a double (`exponentField`, `fraction`, the sign) are read off its bits. What a double
is follows from them: whether it is finite (`isFinite_iff`), which number it stands for
(`value_eq`), and which double has given bits (`bits_ofBits`). `Whole` are the doubles that are
natural numbers; only these and negative zero are equal to one of them (`Whole.of_beq`).
-/

namespace SnapLisp.Number

open Float.Model Float.Model.UnpackedFloat

variable {x : Float}

/-! ## The fields as arithmetic -/

theorem isNegative_eq (x : Float) : isNegative x = decide (2 ^ 63 ≤ bits x) := rfl

theorem exponentField_eq (x : Float) : exponentField x = bits x / 2 ^ 52 % 2 ^ 11 := by
  rw [exponentField, Nat.shiftRight_eq_div_pow]
  rfl

theorem fraction_eq (x : Float) : fraction x = bits x % 2 ^ 52 := rfl

theorem significand_eq (x : Float) :
    significand x = if exponentField x = 0 then fraction x else 2 ^ 52 + fraction x := rfl

theorem infinityBits_eq : infinityBits = 2047 * 2 ^ 52 := rfl

theorem bits_lt (x : Float) : bits x < 2 ^ 64 := x.toBits.toNat_lt

theorem exponentField_lt (x : Float) : exponentField x < 2048 := Nat.mod_lt _ (by decide)

theorem fraction_lt (x : Float) : fraction x < 2 ^ 52 := Nat.mod_lt _ (by decide)

/-- The bits are the fields side by side. -/
theorem bits_eq (x : Float) :
    bits x = (if isNegative x then 2 ^ 63 else 0) + exponentField x * 2 ^ 52 + fraction x := by
  have hlt := bits_lt x
  simp only [isNegative_eq, exponentField_eq, fraction_eq, decide_eq_true_eq]
  split <;> omega

/-- Only the zeros have no bit of significand. -/
theorem fields_of_significand_eq_zero (h : significand x = 0) :
    exponentField x = 0 ∧ fraction x = 0 := by
  rw [significand_eq] at h
  split at h <;> omega

/-! ## Finite doubles -/

private theorem toNat_unpackExponent (b : BitVec 64) :
    (@unpackExponent Format.binary64 b).toNat = b.toNat / 2 ^ 52 % 2 ^ 11 := by
  simp [unpackExponent, BitVec.extractLsb_toNat, Nat.shiftRight_eq_div_pow]

private theorem toNat_unpackMantissa (b : BitVec 64) :
    (@unpackMantissa Format.binary64 b).toNat = b.toNat % 2 ^ 52 := by
  simp [unpackMantissa, BitVec.extractLsb_toNat]

private theorem toNat_unpackSign (b : BitVec 64) :
    (@unpackSign Format.binary64 b).toNat = b.toNat / 2 ^ 63 := by
  have := b.isLt
  simp [unpackSign, BitVec.extractLsb_toNat, Nat.shiftRight_eq_div_pow]
  omega

/-- The exponent of a bit vector has all bits set if it is the largest one. -/
private theorem unpackExponent_eq_iff (b : BitVec 64) :
    @unpackExponent Format.binary64 b = -1#11 ↔ b.toNat / 2 ^ 52 % 2 ^ 11 = 2047 := by
  rw [← BitVec.toNat_inj, toNat_unpackExponent]
  rfl

theorem isFinite_iff : x.isFinite = true ↔ exponentField x ≠ 2047 := by
  have hones := unpackExponent_eq_iff x.toModel.toBits.toBitVec
  have hfield : x.toModel.toBits.toBitVec.toNat / 2 ^ 52 % 2 ^ 11 = exponentField x :=
    (exponentField_eq x).symm
  rw [hfield] at hones
  unfold Float.isFinite Float.Model.isFinite Float.Model.unpack UnpackedFloat.unpack
  by_cases h : exponentField x = 2047
  · rw [if_pos (hones.mpr h)]
    split <;> simp [UnpackedFloat.isFinite, h]
  · rw [if_neg fun h' => h (hones.mp h')]
    split
    · split <;> simp [UnpackedFloat.isFinite, h]
    · simp [UnpackedFloat.isFinite, h]

theorem isFinite_of_significand_eq_zero (h : significand x = 0) : x.isFinite = true := by
  have hfields := fields_of_significand_eq_zero h
  exact isFinite_iff.mpr (by omega)

/-- A finite double is neither infinite nor a NaN. -/
theorem isNaN_eq_false (h : x.isFinite = true) : x.isNaN = false := by
  revert h
  unfold Float.isFinite Float.Model.isFinite Float.isNaN Float.Model.isNaN
  cases x.toModel.unpack <;> simp [UnpackedFloat.isFinite, UnpackedFloat.isNaN]

theorem isInf_eq_false (h : x.isFinite = true) : x.isInf = false := by
  revert h
  unfold Float.isFinite Float.Model.isFinite Float.isInf Float.Model.isInf
  cases x.toModel.unpack <;> simp [UnpackedFloat.isFinite, UnpackedFloat.isInf]

/-- The bits of a finite double that is not negative give it back. -/
theorem bits_ofBits {n : Nat} (h : n < infinityBits) :
    bits (Float.ofBits (UInt64.ofNat n)) = n := by
  rw [infinityBits_eq] at h
  have hn : (UInt64.ofNat n).toNat = n := by
    rw [UInt64.toNat_ofNat', Nat.mod_eq_of_lt (by omega)]
  have hfield : (UInt64.ofNat n).toNat / 2 ^ 52 % 2 ^ 11 ≠ 2047 := by
    rw [hn]
    omega
  have hvalid : Format.binary64.Valid (UInt64.ofNat n).toBitVec :=
    ⟨fun hones => absurd ((unpackExponent_eq_iff _).mp hones) hfield⟩
  have hpack := congrArg BitVec.toNat (pack_unpack_of_valid hvalid)
  exact hpack.trans hn

theorem nearest?_eq_some_iff {n : Nat} :
    nearest? n = some x ↔ bits x < infinityBits ∧ nearestBits n = bits x := by
  unfold nearest?
  constructor
  · intro h
    split at h
    · rename_i hlt
      cases h
      rw [bits_ofBits hlt]
      exact ⟨hlt, rfl⟩
    · cases h
  · rintro ⟨hlt, heq⟩
    rw [if_pos (by omega), heq, bits, UInt64.ofNat_toNat, Float.ofBits_toBits]

/-! ## The number of a double -/

/-- The scale at which a unit of the significand is one: one has `2 ^ 1074` of the smallest
units. -/
def oneScale : Nat := 1074

private theorem ofBitVec_unpackSign (x : Float) :
    Sign.ofBitVec (@unpackSign Format.binary64 x.toModel.toBits.toBitVec) =
      if isNegative x then .negative else .positive := by
  have hsign : (@unpackSign Format.binary64 x.toModel.toBits.toBitVec).toNat = bits x / 2 ^ 63 :=
    toNat_unpackSign _
  have hlt := bits_lt x
  rw [Sign.ofBitVec, isNegative_eq]
  simp only [← BitVec.toNat_inj, hsign, decide_eq_true_eq, BitVec.toNat_ofNat]
  split <;> split <;> first | rfl | omega

/-- What a finite double is for Lean: a zero, or its significand with its exponent. -/
theorem unpack_eq (h : x.isFinite = true) :
    x.toModel.unpack =
      if hpos : 0 < significand x then
        .finite (if isNegative x then .negative else .positive) (significand x)
          (scale x - oneScale) hpos
      else .zero (if isNegative x then .negative else .positive) := by
  have hfinite := isFinite_iff.mp h
  have hexp : (@unpackExponent Format.binary64 x.toModel.toBits.toBitVec).toNat =
      exponentField x := (toNat_unpackExponent _).trans (exponentField_eq x).symm
  have hman : (@unpackMantissa Format.binary64 x.toModel.toBits.toBitVec).toNat = fraction x :=
    toNat_unpackMantissa _
  have himplicit : (1#1 ++ @unpackMantissa Format.binary64 x.toModel.toBits.toBitVec).toNat =
      2 ^ 52 + fraction x := by
    rw [BitVec.toNat_append, hman, ← Nat.shiftLeft_add_eq_or_of_lt (fraction_lt x)]
    rfl
  have hones : (-1#11).toNat = 2047 := rfl
  have hbias : Format.binary64.exponentBias = 1023 := rfl
  unfold Float.Model.unpack UnpackedFloat.unpack
  simp only [← BitVec.toNat_inj, hexp, hman, himplicit, ofBitVec_unpackSign, hones, hbias,
    BitVec.toNat_zero, if_neg hfinite]
  by_cases hzero : exponentField x = 0
  · have hsig : significand x = fraction x := by rw [significand_eq, if_pos hzero]
    have hexponent : (exponentField x : Int) - ((1023 : Nat) + (52 : Nat)) + 1 =
        scale x - oneScale := by
      rw [scale, hzero]
      rfl
    simp only [if_pos hzero, hsig, hexponent]
    by_cases hfrac : fraction x = 0
    · rw [dif_pos hfrac, dif_neg (by omega)]
    · rw [dif_neg hfrac, dif_pos (Nat.pos_of_ne_zero hfrac)]
  · have hsig : significand x = 2 ^ 52 + fraction x := by rw [significand_eq, if_neg hzero]
    have hexponent : (exponentField x : Int) - ((1023 : Nat) + (52 : Nat)) =
        scale x - oneScale := by
      rw [scale, oneScale]
      omega
    simp only [if_neg hzero, hsig, hexponent]
    rw [dif_pos (by omega)]

/-- The number that a finite double stands for; the others are given zero. -/
def value (x : Float) : ℚ :=
  match x.toModel.unpack with
  | .finite .positive mantissa exponent _ => mantissa * 2 ^ exponent
  | .finite .negative mantissa exponent _ => -(mantissa * 2 ^ exponent)
  | .zero _ | .infinity _ | .notANumber => 0

theorem value_eq (h : x.isFinite = true) : value x =
    (if isNegative x then -1 else 1) * ((significand x * 2 ^ scale x : Nat) : ℚ) /
      2 ^ oneScale := by
  have hpow : (2 : ℚ) ^ ((scale x : Int) - oneScale) = 2 ^ scale x / 2 ^ oneScale := by
    rw [zpow_sub₀ (by norm_num), zpow_natCast, zpow_natCast]
  rw [value, unpack_eq h]
  rcases Nat.eq_zero_or_pos (significand x) with hzero | hpos
  · rw [dif_neg (by omega), hzero]
    simp
  · rw [dif_pos hpos]
    push_cast
    cases isNegative x with
    | false =>
      simp only [Bool.false_eq_true, if_false, hpow]
      ring
    | true =>
      simp only [if_true, hpow]
      ring

/-! ## Natural numbers -/

/-- A finite double that is an integer and has a clear sign bit. -/
structure Whole (x : Float) : Prop where
  finite : x.isFinite = true
  sign : isNegative x = false
  integral : 2 ^ oneScale ∣ significand x * 2 ^ scale x

theorem Whole.beq_self (h : Whole x) : (x == x) = true := by
  rw [Float.beq_self_iff]
  rintro rfl
  cases h.finite

theorem whole_zero : Whole 0 := by
  have hzero : significand 0 = 0 := rfl
  refine ⟨isFinite_of_significand_eq_zero hzero, rfl, ?_⟩
  rw [hzero, Nat.zero_mul]
  exact Nat.dvd_zero _

/-- The double is zero and has its sign bit set. -/
def isNegativeZero (x : Float) : Bool := isNegative x && significand x == 0

/-- A double equal to a natural number is that number or negative zero. -/
theorem Whole.of_beq {y : Float} (hx : Whole x) (h : (x == y) = true)
    (hy : isNegativeZero y = false) : Whole y := by
  obtain ⟨-, -, heq⟩ := Float.beq_iff_ne_nan_and_eq.mp h
  rcases heq with rfl | ⟨-, rfl⟩ | ⟨rfl, rfl⟩
  · exact hx
  · cases hy
  · exact whole_zero

/-- Natural numbers that are equal are the same double. -/
theorem Whole.eq_of_beq {y : Float} (hx : Whole x) (hy : Whole y) (h : (x == y) = true) :
    x = y := by
  obtain ⟨-, -, heq⟩ := Float.beq_iff_ne_nan_and_eq.mp h
  rcases heq with rfl | ⟨-, rfl⟩ | ⟨rfl, -⟩
  · rfl
  · cases hy.sign
  · cases hx.sign

end SnapLisp.Number
