import SnapLisp.Proofs.Number.WholeText

/-!
# No decimal rounds to two doubles

The magnitudes of doubles stand in a row, each at its rank. Halfway between neighbours lie the ends
of the rounding intervals, so intervals of different ranks meet in an end at most
(`halfway_strictMono`), and an end belongs to the even one of its neighbours. A decimal is thus in
one interval only (`RoundsTo.unique`). The shortest decimal of a double is in the interval of that
double (`roundsTo_shortest`), whichever way ties are broken.
-/

namespace SnapLisp.Number

/-- The rank of the magnitude of a double among all magnitudes, zero being the first. -/
def rank (x : Float) : Nat := exponentField x * 2 ^ 52 + fraction x

/-- The significand of the magnitudes of rank `r`. -/
def mantissa (r : Nat) : Nat := if r < 2 ^ 52 then r else 2 ^ 52 + r % 2 ^ 52

/-- Halfway between the magnitudes of rank `r` and `r + 1`, in quarters of the smallest double. -/
def halfway (r : Nat) : Nat := (4 * mantissa r + 2) * 2 ^ (r / 2 ^ 52 - 1)

/-- The number is in the interval of reals that round to the magnitude of rank `r`. -/
structure RoundsTo (q : ℚ) (r : Nat) : Prop where
  above : ∀ s, r = s + 1 → halfway s ≤ q * 2 ^ (oneScale + 2)
  below : q * 2 ^ (oneScale + 2) ≤ halfway r
  inside : r % 2 = 0 ∨ (∀ s, r = s + 1 → halfway s < q * 2 ^ (oneScale + 2)) ∧
    q * 2 ^ (oneScale + 2) < halfway r

/-! ## The row of magnitudes -/

/-- Above a carry the significand starts over, in units twice as large. -/
theorem mantissa_of_carry {s : Nat} (h : (s + 1) % 2 ^ 52 = 0 ∧ 1 < (s + 1) / 2 ^ 52) :
    mantissa s = 2 ^ 53 - 1 ∧ mantissa (s + 1) = 2 ^ 52 ∧
      (s + 1) / 2 ^ 52 - 1 = s / 2 ^ 52 - 1 + 1 := by
  refine ⟨?_, ?_, by omega⟩
  · rw [mantissa, if_neg (by omega)]
    omega
  · rw [mantissa, if_neg (by omega)]
    omega

theorem mantissa_succ {s : Nat} (h : ¬((s + 1) % 2 ^ 52 = 0 ∧ 1 < (s + 1) / 2 ^ 52)) :
    mantissa (s + 1) = mantissa s + 1 ∧ (s + 1) / 2 ^ 52 - 1 = s / 2 ^ 52 - 1 := by
  refine ⟨?_, by omega⟩
  unfold mantissa
  split <;> split <;> omega

/-- The midpoint below a magnitude is half the spacing away from it; at a power of two the spacing
below is half of that above. -/
theorem halfway_pred (s : Nat) : halfway s =
    (4 * mantissa (s + 1) - if (s + 1) % 2 ^ 52 = 0 ∧ 1 < (s + 1) / 2 ^ 52 then 1 else 2) *
      2 ^ ((s + 1) / 2 ^ 52 - 1) := by
  unfold halfway
  split
  · rename_i hcarry
    obtain ⟨hlow, hhigh, hscale⟩ := mantissa_of_carry hcarry
    rw [hscale, hlow, hhigh, Nat.pow_succ']
    omega
  · rename_i hcarry
    obtain ⟨hsucc, hscale⟩ := mantissa_succ hcarry
    rw [hscale, hsucc]
    congr 1

theorem halfway_strictMono : StrictMono halfway := by
  refine strictMono_nat_of_lt_succ fun s => ?_
  rw [halfway_pred]
  unfold halfway
  refine Nat.mul_lt_mul_of_pos_right ?_ (Nat.two_pow_pos _)
  split <;> omega

/-- Intervals of different ranks have no common number, since of two neighbours one is odd and does
not hold the midpoint between them. -/
theorem RoundsTo.unique {q : ℚ} {r s : Nat} (hr : RoundsTo q r) (hs : RoundsTo q s) : r = s := by
  wlog hle : r ≤ s generalizing r s
  · exact (this hs hr (Nat.le_of_not_le hle)).symm
  rcases Nat.eq_or_lt_of_le hle with heq | hlt
  · exact heq
  · obtain ⟨t, rfl⟩ : ∃ t, s = t + 1 := ⟨s - 1, by omega⟩
    have hmono : (halfway r : ℚ) ≤ halfway t :=
      Nat.cast_le.mpr (halfway_strictMono.monotone (Nat.le_of_lt_succ hlt))
    have habove := hs.above t rfl
    have hmid : halfway t = halfway r :=
      Nat.cast_injective (le_antisymm (habove.trans hr.below) hmono)
    have hrt : t = r := halfway_strictMono.injective hmid
    subst hrt
    rcases hr.inside with heven | ⟨-, hstrict⟩
    · rcases hs.inside with heven' | ⟨hstrict, -⟩
      · omega
      · exact absurd hr.below (not_le_of_gt (hstrict t rfl))
    · exact absurd habove (not_le_of_gt hstrict)

/-! ## The rank of a double -/

variable {x y : Float}

/-- A double is its sign and its rank. -/
theorem eq_of_rank (hsign : isNegative x = isNegative y) (hrank : rank x = rank y) : x = y := by
  have hbits : bits x = bits y := by
    rw [bits_eq x, bits_eq y, hsign, Nat.add_assoc, Nat.add_assoc]
    exact congrArg _ hrank
  rw [← Float.ofBits_toBits x, ← Float.ofBits_toBits y, UInt64.toNat_inj.mp hbits]

theorem rank_div (x : Float) : rank x / 2 ^ 52 = exponentField x := by
  have hfrac := fraction_lt x
  unfold rank
  omega

theorem rank_mod (x : Float) : rank x % 2 ^ 52 = fraction x := by
  have hfrac := fraction_lt x
  unfold rank
  omega

theorem mantissa_rank (x : Float) : mantissa (rank x) = significand x := by
  have hfrac := fraction_lt x
  rw [mantissa, significand_eq, rank_mod]
  unfold rank
  split <;> split <;> omega

theorem rank_eq_zero_iff : rank x = 0 ↔ significand x = 0 := by
  rw [significand_eq, rank]
  split <;> omega

theorem significand_mod_two (x : Float) : significand x % 2 = rank x % 2 := by
  rw [← mantissa_rank, mantissa]
  split <;> omega

/-- The upper end of the interval of a double. -/
theorem halfway_rank (x : Float) : halfway (rank x) = (4 * significand x + 2) * 2 ^ scale x := by
  rw [halfway, rank_div, mantissa_rank, scale]

/-- The lower end of the interval of a double. -/
theorem halfway_of_rank_eq {s : Nat} (h : rank x = s + 1) :
    halfway s = (4 * significand x - lowerGap x) * 2 ^ scale x := by
  rw [halfway_pred, ← h, mantissa_rank, rank_div, rank_mod, lowerGap, halvesBelow, scale]
  simp only [Bool.and_eq_true, decide_eq_true_eq]

/-! ## The shortest decimal -/

/-- The number that a decimal stands for. -/
def Decimal.value (d : Decimal) : ℚ := d.digits * 10 ^ d.exponent

/-- The shortest decimal of a positive double is one of the numbers in its interval. -/
theorem exists_holds_shortest (tie : Tie) (hpos : significand x ≠ 0) :
    ∃ n : Nat, (Interval.ofFloat x).holds n = true ∧
      (shortest tie x).value * 10 ^ places x = n := by
  obtain ⟨hholds, -⟩ := @Interval.coarsest_spec _ tie (holds_value hpos)
    ((Interval.ofFloat x).value.log2 / 3 + 1)
  refine ⟨_, hholds, ?_⟩
  unfold shortest Decimal.value
  simp only []
  generalize (Interval.ofFloat x).coarsest tie ((Interval.ofFloat x).value.log2 / 3 + 1) = d
  generalize places x = p
  push_cast
  rw [mul_assoc, ← zpow_natCast, ← zpow_natCast, ← zpow_add₀ (by norm_num)]
  congr 2
  omega

section Grid

variable {q : ℚ} {n : Nat} (h : q * 10 ^ places x = n) (a : Nat)
include h

/-- Quarters of the spacing and a decimal on a common grid. -/
private theorem grid_eq :
    ((a * 2 ^ scale x : Nat) : ℚ) * 10 ^ places x =
        ((a * quarter x : Nat) : ℚ) * 2 ^ (oneScale + 2) ∧
      q * 2 ^ (oneScale + 2) * 10 ^ places x = (n : ℚ) * 2 ^ (oneScale + 2) := by
  have hunit : ((quarter x * 2 ^ (oneScale + 2) : Nat) : ℚ) =
      ((2 ^ scale x * 10 ^ places x : Nat) : ℚ) := congrArg _ (quarter_mul_unit x)
  push_cast at hunit ⊢
  rw [mul_assoc, ← hunit, mul_assoc, mul_right_comm, h]
  exact ⟨rfl, rfl⟩

theorem mul_quarter_le_iff_value :
    a * quarter x ≤ n ↔ ((a * 2 ^ scale x : Nat) : ℚ) ≤ q * 2 ^ (oneScale + 2) := by
  obtain ⟨ha, hq⟩ := grid_eq h a
  rw [← mul_le_mul_iff_of_pos_right (show (0 : ℚ) < 10 ^ places x by positivity), ha, hq,
    mul_le_mul_iff_of_pos_right (by positivity), Nat.cast_le]

theorem le_mul_quarter_iff_value :
    n ≤ a * quarter x ↔ q * 2 ^ (oneScale + 2) ≤ ((a * 2 ^ scale x : Nat) : ℚ) := by
  obtain ⟨ha, hq⟩ := grid_eq h a
  rw [← mul_le_mul_iff_of_pos_right (show (0 : ℚ) < 10 ^ places x by positivity), ha, hq,
    mul_le_mul_iff_of_pos_right (by positivity), Nat.cast_le]

end Grid

/-- **Shortest decimals.** The shortest decimal of a positive double rounds to that double,
whichever way ties are broken. -/
theorem roundsTo_shortest (tie : Tie) (hpos : significand x ≠ 0) :
    RoundsTo (shortest tie x).value (rank x) := by
  obtain ⟨n, hholds, hn⟩ := exists_holds_shortest tie hpos
  have hbounds := bounds_of_holds hholds
  rw [← Nat.not_le, ← Nat.not_le, mul_quarter_le_iff_value hn, mul_quarter_le_iff_value hn,
    le_mul_quarter_iff_value hn, le_mul_quarter_iff_value hn, not_le, not_le,
    significand_mod_two] at hbounds
  obtain ⟨hlow, hhigh, hends⟩ := hbounds
  refine ⟨fun s hs => ?_, ?_, ?_⟩
  · rwa [halfway_of_rank_eq hs]
  · rwa [halfway_rank]
  · rw [halfway_rank]
    refine hends.imp_right fun ⟨hlow, hhigh⟩ => ⟨fun s hs => ?_, hhigh⟩
    rwa [halfway_of_rank_eq hs]

/-- Zero is in the interval of the first rank. -/
theorem roundsTo_zero : RoundsTo 0 0 := by
  refine ⟨fun s hs => (Nat.succ_ne_zero s hs.symm).elim, ?_, .inl rfl⟩
  rw [zero_mul]
  exact Nat.cast_nonneg _

end SnapLisp.Number
