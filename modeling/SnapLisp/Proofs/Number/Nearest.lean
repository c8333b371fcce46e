import SnapLisp.Proofs.Number.Overflow
import SnapLisp.Proofs.Number.Ranks

/-!
# The double nearest to a number

`NearestEven q x` says that `x` is nearest to the number `q` among the finite doubles, by their
values alone: no finite double is nearer, and if another value is as near, then the significand of
`x` is even. A double in whose interval the number lies is nearest to it (`RoundsTo.nearestEven`),
and with a clear sign bit it is the only one (`RoundsTo.eq_of_nearestEven`), since the only values
that can be as near are its neighbours, whose significands are odd (`RoundsTo.tie`).

What a natural number is read as is the double in whose interval it lies (`roundsTo_of_nearest?`).
The carry out of the significand is why this takes two cases: there the number lies below a power of
two, where the interval is narrower, and rounds up to it.
-/

namespace SnapLisp.Number

/-- The double is finite and nearest to the number, and of two that are equally near the one with
the even significand. -/
structure NearestEven (q : ℚ) (x : Float) : Prop where
  finite : x.isFinite = true
  nearest : ∀ y : Float, y.isFinite = true → |value x - q| ≤ |value y - q|
  even : ∀ y : Float, y.isFinite = true → |value y - q| = |value x - q| → value y ≠ value x →
    significand x % 2 = 0

/-! ## Values by rank -/

/-- The value of the magnitude of rank `r`. -/
def rankValue (r : Nat) : ℚ := mantissa r * 2 ^ (r / 2 ^ 52 - 1) / 2 ^ oneScale

/-- The next magnitude is a unit of the significand away, at a power of two also. -/
theorem rankValue_succ (r : Nat) :
    rankValue (r + 1) = rankValue r + 2 ^ (r / 2 ^ 52 - 1) / 2 ^ oneScale := by
  have hunits : mantissa (r + 1) * 2 ^ ((r + 1) / 2 ^ 52 - 1) =
      (mantissa r + 1) * 2 ^ (r / 2 ^ 52 - 1) := by
    by_cases hcarry : (r + 1) % 2 ^ 52 = 0 ∧ 1 < (r + 1) / 2 ^ 52
    · obtain ⟨hlow, hhigh, hscale⟩ := mantissa_of_carry hcarry
      rw [hscale, hlow, hhigh, Nat.pow_succ']
      omega
    · obtain ⟨hsucc, hscale⟩ := mantissa_succ hcarry
      rw [hscale, hsucc]
  have hcast : (mantissa (r + 1) : ℚ) * 2 ^ ((r + 1) / 2 ^ 52 - 1) =
      (mantissa r + 1) * 2 ^ (r / 2 ^ 52 - 1) := by
    exact_mod_cast hunits
  rw [rankValue, rankValue, hcast]
  ring

theorem rankValue_strictMono : StrictMono rankValue := by
  refine strictMono_nat_of_lt_succ fun r => ?_
  rw [rankValue_succ]
  exact lt_add_of_pos_right _ (by positivity)

/-- The midpoint between two neighbours. -/
theorem halfway_eq (r : Nat) :
    (halfway r : ℚ) = (rankValue r + rankValue (r + 1)) / 2 * 2 ^ (oneScale + 2) := by
  rw [rankValue_succ, rankValue, halfway]
  push_cast
  field_simp
  ring

theorem halfway_le_iff {q : ℚ} {r : Nat} :
    halfway r ≤ q * 2 ^ (oneScale + 2) ↔ rankValue r + rankValue (r + 1) ≤ 2 * q := by
  rw [halfway_eq, mul_le_mul_iff_of_pos_right (by positivity), div_le_iff₀' (by norm_num)]

theorem le_halfway_iff {q : ℚ} {r : Nat} :
    q * 2 ^ (oneScale + 2) ≤ halfway r ↔ 2 * q ≤ rankValue r + rankValue (r + 1) := by
  rw [halfway_eq, mul_le_mul_iff_of_pos_right (by positivity), le_div_iff₀' (by norm_num)]

section Value

variable {x y : Float}

theorem value_eq_rankValue (h : x.isFinite = true) :
    value x = if isNegative x then -rankValue (rank x) else rankValue (rank x) := by
  rw [value_eq h, rankValue, rank_div, mantissa_rank, scale]
  push_cast
  split <;> ring

theorem rankValue_nonneg (r : Nat) : 0 ≤ rankValue r := by
  unfold rankValue
  positivity

theorem abs_value (h : x.isFinite = true) : |value x| = rankValue (rank x) := by
  have hnonneg := rankValue_nonneg (rank x)
  rw [value_eq_rankValue h]
  split
  · rw [abs_neg, abs_of_nonneg hnonneg]
  · rw [abs_of_nonneg hnonneg]

theorem value_of_sign (h : x.isFinite = true) (hsign : isNegative x = false) :
    value x = rankValue (rank x) := by
  rw [value_eq_rankValue h, hsign]
  rfl

/-- Different doubles of one magnitude are opposite. -/
theorem value_eq_neg_of_ne (hx : x.isFinite = true) (hsign : isNegative x = false)
    (hy : y.isFinite = true) (hrank : rank y = rank x) (hne : value y ≠ value x) :
    0 < value x ∧ value y = -value x := by
  have hvalue := value_of_sign hx hsign
  have hnonneg := rankValue_nonneg (rank x)
  have hopposite : value y = -value x := by
    rw [value_eq_rankValue hy, hrank, ← hvalue] at hne ⊢
    by_cases hneg : isNegative y = true
    · rw [if_pos hneg]
    · rw [if_neg hneg] at hne
      exact absurd rfl hne
  rw [← hvalue] at hnonneg
  refine ⟨lt_of_le_of_ne hnonneg fun hzero => hne ?_, hopposite⟩
  rw [hopposite, ← hzero, neg_zero]

end Value

/-! ## Nearest values -/

section Nearest

variable {q : ℚ} {r t : Nat}

/-- No value is nearer than the one in whose interval the number lies. -/
theorem RoundsTo.abs_sub_le (h : RoundsTo q r) (t : Nat) :
    |rankValue r - q| ≤ |rankValue t - q| := by
  rcases Nat.lt_trichotomy t r with hlt | rfl | hgt
  · obtain ⟨s, rfl⟩ : ∃ s, r = s + 1 := ⟨r - 1, by omega⟩
    have hmid := halfway_le_iff.mp (h.above s rfl)
    have hpred := rankValue_strictMono.monotone (Nat.le_of_lt_succ hlt)
    have hvalues := rankValue_strictMono hlt
    have hleft : 0 ≤ q - rankValue t := by linarith
    rw [abs_sub_comm (rankValue t), abs_of_nonneg hleft, abs_le]
    constructor <;> linarith
  · exact le_refl _
  · have hmid := le_halfway_iff.mp h.below
    have hsucc := rankValue_strictMono.monotone (Nat.succ_le_of_lt hgt)
    have hvalues := rankValue_strictMono hgt
    have hright : 0 ≤ rankValue t - q := by linarith
    rw [abs_of_nonneg hright, abs_le]
    constructor <;> linarith

/-- Only a neighbour is as near, so its significand is odd and this one's is even. -/
theorem RoundsTo.tie (h : RoundsTo q r) (hne : t ≠ r)
    (htie : |rankValue t - q| = |rankValue r - q|) : r % 2 = 0 ∧ t % 2 = 1 := by
  have hmid : rankValue t + rankValue r = 2 * q := by
    rcases abs_eq_abs.mp htie with heq | heq
    · have hsame : rankValue t = rankValue r := by linarith
      exact absurd (rankValue_strictMono.injective hsame) hne
    · linarith
  rcases Nat.lt_or_gt_of_ne hne with hlt | hgt
  · obtain ⟨s, rfl⟩ : ∃ s, r = s + 1 := ⟨r - 1, by omega⟩
    have hbelow := halfway_le_iff.mp (h.above s rfl)
    have hle : rankValue s ≤ rankValue t := by linarith
    obtain rfl : t = s :=
      Nat.le_antisymm (Nat.le_of_lt_succ hlt) (rankValue_strictMono.le_iff_le.mp hle)
    -- the number is the midpoint below
    rcases h.inside with heven | ⟨hstrict, -⟩
    · omega
    · have habove := not_le_of_gt (hstrict t rfl)
      exact absurd (le_halfway_iff.mpr hmid.ge) habove
  · have habove := le_halfway_iff.mp h.below
    have hle : rankValue t ≤ rankValue (r + 1) := by linarith
    obtain rfl : t = r + 1 :=
      Nat.le_antisymm (rankValue_strictMono.le_iff_le.mp hle) (Nat.succ_le_of_lt hgt)
    rcases h.inside with heven | ⟨-, hstrict⟩
    · omega
    · have hbelow := not_le_of_gt hstrict
      exact absurd (halfway_le_iff.mpr (by linarith)) hbelow

/-- A larger number does not round to a smaller magnitude. -/
theorem RoundsTo.mono {q' : ℚ} {s : Nat} (h : RoundsTo q r) (h' : RoundsTo q' s) (hle : q ≤ q') :
    r ≤ s := by
  by_contra hlt
  obtain ⟨t, rfl⟩ : ∃ t, r = t + 1 := ⟨r - 1, by omega⟩
  have hmid := halfway_le_iff.mp (h.above t rfl)
  have hmid' := le_halfway_iff.mp h'.below
  have hfirst := rankValue_strictMono.monotone (show s ≤ t by omega)
  have hsecond := rankValue_strictMono.monotone (show s + 1 ≤ t + 1 by omega)
  have hsame : q = q' := by linarith
  subst hsame
  exact hlt (Nat.le_of_eq (h.unique h'))

end Nearest

section NearestEven

variable {q : ℚ} {x y : Float}

/-- The magnitude of a double is at least as near to a positive number as the double. -/
theorem abs_rankValue_sub_le (hy : y.isFinite = true) (hq : 0 ≤ q) :
    |rankValue (rank y) - q| ≤ |value y - q| := by
  rw [← abs_value hy]
  conv => lhs; rw [← abs_of_nonneg hq]
  exact abs_abs_sub_abs_le _ _

/-- **Nearest.** The double in whose interval a number lies is nearest to it. -/
theorem RoundsTo.nearestEven (hx : x.isFinite = true) (hsign : isNegative x = false) (hq : 0 ≤ q)
    (h : RoundsTo q (rank x)) : NearestEven q x := by
  have hvalue := value_of_sign hx hsign
  refine ⟨hx, fun y hy => ?_, fun y hy htie hne => ?_⟩
  · rw [hvalue]
    exact (h.abs_sub_le _).trans (abs_rankValue_sub_le hy hq)
  · have hrank : |rankValue (rank y) - q| = |rankValue (rank x) - q| := by
      refine le_antisymm ?_ (h.abs_sub_le _)
      rw [← hvalue, ← htie]
      exact abs_rankValue_sub_le hy hq
    rw [significand_mod_two]
    by_cases hsame : rank y = rank x
    · -- the opposite of a positive double is as near to zero only
      obtain ⟨hpos, hopposite⟩ := value_eq_neg_of_ne hx hsign hy hsame hne
      have hzero : q = 0 := by
        rw [hopposite] at htie
        rcases abs_eq_abs.mp htie with heq | heq <;> linarith
      subst hzero
      rw [h.unique roundsTo_zero]
    · exact (h.tie hsame hrank).1

/-- It is the only one with a clear sign bit. -/
theorem RoundsTo.eq_of_nearestEven (hx : x.isFinite = true) (hsign : isNegative x = false)
    (hq : 0 ≤ q) (h : RoundsTo q (rank x)) (hy : NearestEven q y)
    (hsign' : isNegative y = false) : y = x := by
  have hnearest := h.nearestEven hx hsign hq
  have htie : |value x - q| = |value y - q| :=
    le_antisymm (hnearest.nearest y hy.finite) (hy.nearest x hx)
  refine eq_of_rank (hsign'.trans hsign.symm) ?_
  by_contra hne
  have hvalues : value x ≠ value y := by
    rw [value_of_sign hx hsign, value_of_sign hy.finite hsign']
    exact fun heq => hne (rankValue_strictMono.injective heq.symm)
  have heven := hy.even x hx htie hvalues
  rw [value_of_sign hx hsign, value_of_sign hy.finite hsign'] at htie
  have hodd := (h.tie hne htie.symm).2
  rw [significand_mod_two] at heven
  omega

end NearestEven

/-! ## What a natural number is read as -/

section Natural

variable {n : Nat} {x : Float}

/-- Natural numbers in the interval of a double of at least one. -/
theorem roundsTo_natural {c : Nat} (h : scale x = c + 1022)
    (hlow : (4 * significand x - lowerGap x) * 2 ^ c ≤ n * 2 ^ 54)
    (hhigh : n * 2 ^ 54 ≤ (4 * significand x + 2) * 2 ^ c)
    (hends : significand x % 2 = 0 ∨ (4 * significand x - lowerGap x) * 2 ^ c < n * 2 ^ 54 ∧
      n * 2 ^ 54 < (4 * significand x + 2) * 2 ^ c) :
    RoundsTo n (rank x) := by
  obtain ⟨k, hone, hk⟩ : ∃ k, oneScale + 2 = 54 + k ∧ scale x = c + k := ⟨1022, rfl, h⟩
  have hgrid : (n : ℚ) * 2 ^ (oneScale + 2) = ((n * 2 ^ 54 * 2 ^ k : Nat) : ℚ) := by
    rw [hone, pow_add]
    push_cast
    ring
  have hupper : halfway (rank x) = (4 * significand x + 2) * 2 ^ c * 2 ^ k := by
    rw [halfway_rank, hk, Nat.pow_add, Nat.mul_assoc]
  have hlower : ∀ s, rank x = s + 1 →
      halfway s = (4 * significand x - lowerGap x) * 2 ^ c * 2 ^ k := by
    intro s hs
    rw [halfway_of_rank_eq hs, hk, Nat.pow_add, Nat.mul_assoc]
  have hpos : 0 < 2 ^ k := Nat.two_pow_pos k
  refine ⟨fun s hs => ?_, ?_, ?_⟩
  · rw [hgrid, hlower s hs, Nat.cast_le]
    exact Nat.mul_le_mul_right _ hlow
  · rw [hgrid, hupper, Nat.cast_le]
    exact Nat.mul_le_mul_right _ hhigh
  · rw [← significand_mod_two, hgrid, hupper, Nat.cast_lt]
    refine hends.imp_right fun ⟨hlow, hhigh⟩ => ⟨fun s hs => ?_, ?_⟩
    · rw [hlower s hs, Nat.cast_lt]
      exact Nat.mul_lt_mul_of_pos_right hlow hpos
    · exact Nat.mul_lt_mul_of_pos_right hhigh hpos

theorem rank_of_nearest?_zero (h : nearest? 0 = some x) : rank x = 0 := by
  have hzero : bits x = 0 := (nearest?_eq_some_iff.mp h).2.symm
  rw [rank, exponentField_eq, fraction_eq, hzero]
  rfl

theorem roundsTo_of_shiftToEven (hn : n ≠ 0)
    (hsig : significand x = shiftToEven (n * 2 ^ 52) n.log2) (hscale : scale x = n.log2 + 1022) :
    RoundsTo n (rank x) := by
  obtain ⟨hlow, hhigh, htie⟩ := shiftToEven_bounds (n * 2 ^ 52) n.log2
  have hself := Nat.log2_self_le hn
  rw [← hsig] at hlow hhigh htie
  have hupper : (4 * significand x + 2) * 2 ^ n.log2 =
      4 * (significand x * 2 ^ n.log2) + 2 * 2 ^ n.log2 := by
    rw [Nat.add_mul, Nat.mul_assoc]
  rcases lowerGap_cases hscale with ⟨hgap, hpower⟩ | ⟨hgap, -⟩
  · -- numbers below a power of two have one bit less, so the lower end is not in question
    rw [hpower] at hhigh hupper
    refine roundsTo_natural hscale ?_ ?_ (.inl ?_)
    · rw [hpower, hgap]
      omega
    · rw [hpower]
      omega
    · rw [hpower]
      rfl
  · have hlower : (4 * significand x - lowerGap x) * 2 ^ n.log2 =
        4 * (significand x * 2 ^ n.log2) - 2 * 2 ^ n.log2 := by
      rw [hgap, Nat.sub_mul, Nat.mul_assoc]
    exact roundsTo_natural hscale (by omega) (by omega) (by omega)

/-- A carry leads to the power of two that is the double. -/
theorem roundsTo_of_carry (hcarry : shiftToEven (n * 2 ^ 52) n.log2 = 2 ^ 53)
    (hsig : significand x = 2 ^ 52) (hscale : scale x = n.log2 + 1 + 1022) :
    RoundsTo n (rank x) := by
  obtain ⟨hlow, -, -⟩ := shiftToEven_bounds (n * 2 ^ 52) n.log2
  have hself : n < 2 ^ (n.log2 + 1) := Nat.lt_log2_self
  have hdouble : 2 ^ (n.log2 + 1) = 2 * 2 ^ n.log2 := Nat.pow_succ'
  have hgap : lowerGap x = 1 := by
    rcases lowerGap_cases hscale with ⟨hgap, -⟩ | ⟨-, hlarge⟩
    · exact hgap
    · omega
  rw [hcarry] at hlow
  refine roundsTo_natural hscale ?_ ?_ (.inl ?_)
  · rw [hsig, hgap]
    omega
  · rw [hsig]
    omega
  · rw [hsig]
    rfl

/-- **Reading rounds.** A natural number is in the interval of the double it is read as. -/
theorem roundsTo_of_nearest? (h : nearest? n = some x) : RoundsTo n (rank x) := by
  obtain ⟨hlt, hbits⟩ := nearest?_eq_some_iff.mp h
  by_cases hn : n = 0
  · subst hn
    rw [rank_of_nearest?_zero h, Nat.cast_zero]
    exact roundsTo_zero
  · rcases fields_of_nearestBits hn hlt hbits with ⟨hsig, hscale⟩ | ⟨hcarry, hsig, hscale⟩
    · exact roundsTo_of_shiftToEven hn hsig hscale
    · exact roundsTo_of_carry hcarry hsig hscale

/-- What is read is nearest, and it is all that is nearest. -/
theorem nearestEven_of_nearest? (h : nearest? n = some x) :
    isNegative x = false ∧ NearestEven n x ∧
      ∀ y, isNegative y = false → NearestEven n y → y = x := by
  have hwhole := whole_of_nearest? h
  have hrounds := roundsTo_of_nearest? h
  exact ⟨hwhole.sign, hrounds.nearestEven hwhole.finite hwhole.sign n.cast_nonneg,
    fun y hsign hy => hrounds.eq_of_nearestEven hwhole.finite hwhole.sign n.cast_nonneg hy hsign⟩

/-- Larger numbers are not read as smaller ones. -/
theorem value_le_of_nearest? {m : Nat} {y : Float} (hx : nearest? m = some x)
    (hy : nearest? n = some y) (hle : m ≤ n) : value x ≤ value y := by
  have hwhole := whole_of_nearest? hx
  have hwhole' := whole_of_nearest? hy
  rw [value_of_sign hwhole.finite hwhole.sign, value_of_sign hwhole'.finite hwhole'.sign]
  refine rankValue_strictMono.monotone ?_
  exact (roundsTo_of_nearest? hx).mono (roundsTo_of_nearest? hy) (Nat.cast_le.mpr hle)

/-- Numbers of at most 53 bits have nothing to round away, and neither has `2 ^ 53`. -/
theorem significand_mul_of_le (h : nearest? n = some x) (hle : n ≤ 2 ^ 53) :
    significand x * 2 ^ scale x = n * 2 ^ oneScale := by
  obtain ⟨hlt, hbits⟩ := nearest?_eq_some_iff.mp h
  by_cases hn : n = 0
  · subst hn
    rw [rank_eq_zero_iff.mp (rank_of_nearest?_zero h), Nat.zero_mul, Nat.zero_mul]
  have hdvd : 2 ^ n.log2 ∣ n * 2 ^ 52 := by
    have hself := Nat.log2_self_le hn
    rcases Nat.lt_or_ge n.log2 53 with hshort | hlong
    · exact Nat.dvd_mul_left_of_dvd (Nat.pow_dvd_pow 2 (by omega)) n
    · have hpow : 2 ^ 53 ≤ 2 ^ n.log2 := Nat.pow_le_pow_right (by decide) hlong
      have hsame : n = 2 ^ n.log2 := by omega
      conv => rhs; rw [hsame]
      exact Nat.dvd_mul_right _ _
  obtain ⟨m, hm⟩ := hdvd
  rw [Nat.mul_comm (2 ^ n.log2)] at hm
  obtain ⟨k, hone, hk⟩ : ∃ k, oneScale = 52 + k ∧ 1022 = k := ⟨1022, rfl, rfl⟩
  rw [significand_mul_of_nearestBits hn hlt hbits, hm, shiftToEven_mul_two_pow, hone, hk,
    Nat.pow_add, Nat.pow_add, ← Nat.mul_assoc, ← Nat.mul_assoc, hm]

/-- **Exactness.** Such numbers are read as they are. -/
theorem value_of_nearest? (h : nearest? n = some x) (hle : n ≤ 2 ^ 53) : value x = n := by
  have hwhole := whole_of_nearest? h
  rw [value_eq hwhole.finite, hwhole.sign, significand_mul_of_le h hle]
  push_cast
  field_simp

/-- Numbers of at most 53 bits are not too large. -/
theorem not_tooLarge_of_le (hle : n ≤ 2 ^ 53) : ¬TooLarge n := by
  obtain ⟨k, hk⟩ : ∃ k, k = 970 := ⟨970, rfl⟩
  have hlarge : TooLarge n ↔ 2 ^ (k + 54) ≤ n + 2 ^ k := by rw [hk, TooLarge]
  have hend : 2 ^ (k + 54) = 2 ^ k * 2 ^ 54 := Nat.pow_add ..
  have hpos : 0 < 2 ^ k := Nat.two_pow_pos k
  rw [hlarge]
  omega

end Natural

end SnapLisp.Number
