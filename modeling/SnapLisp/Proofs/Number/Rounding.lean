import SnapLisp.Number.Shortest
import SnapLisp.Proofs.Number.Double

/-!
# Reading natural numbers is rounding them

`nearest?` reads a natural number as a double. Every number in the rounding interval of a double is
read as that double (`nearestBits_of_holds`), also where the interval reaches below a power of two
and the number has one bit less than the double. What is read is a natural number again
(`whole_of_nearest?`).
-/

namespace SnapLisp.Number

/-! ## Shifting to the nearest -/

theorem shiftToEven_eq_ite (n places : Nat) : shiftToEven n places =
    if 2 * (n % 2 ^ places) < 2 ^ places then n / 2 ^ places
    else if 2 ^ places < 2 * (n % 2 ^ places) then n / 2 ^ places + 1
    else n / 2 ^ places + n / 2 ^ places % 2 := by
  rw [← Nat.one_shiftLeft places]
  rfl

/-- The nearest number of units is the one at most half a unit away; at half a unit it is even. -/
theorem shiftToEven_eq {n places q : Nat} (hlow : 2 * (q * 2 ^ places) ≤ 2 * n + 2 ^ places)
    (hhigh : 2 * n ≤ 2 * (q * 2 ^ places) + 2 ^ places)
    (htie : 2 * (q * 2 ^ places) = 2 * n + 2 ^ places ∨
      2 * n = 2 * (q * 2 ^ places) + 2 ^ places → q % 2 = 0) :
    shiftToEven n places = q := by
  have hunit : 0 < 2 ^ places := Nat.two_pow_pos places
  have hdiv := Nat.div_add_mod' n (2 ^ places)
  have hmod := Nat.mod_lt n hunit
  rw [shiftToEven_eq_ite]
  generalize 2 ^ places = d at *
  generalize n / d = quotient at *
  generalize n % d = remainder at *
  have hle : quotient ≤ q := by
    have : quotient * d < (q + 1) * d := by
      rw [Nat.add_mul]
      omega
    have := Nat.lt_of_mul_lt_mul_right this
    omega
  have hge : q ≤ quotient + 1 := by
    have : q * d < (quotient + 2) * d := by
      rw [Nat.add_mul]
      omega
    have := Nat.lt_of_mul_lt_mul_right this
    omega
  obtain rfl | rfl : q = quotient ∨ q = quotient + 1 := by omega
  · split
    · rfl
    · split <;> omega
  · rw [Nat.add_mul] at *
    split
    · omega
    · split <;> omega

/-- Rounding changes a number by half a unit at most, and then to an even number of units. -/
theorem shiftToEven_bounds (n places : Nat) :
    2 * (shiftToEven n places * 2 ^ places) ≤ 2 * n + 2 ^ places ∧
      2 * n ≤ 2 * (shiftToEven n places * 2 ^ places) + 2 ^ places ∧
        (2 * (shiftToEven n places * 2 ^ places) = 2 * n + 2 ^ places ∨
          2 * n = 2 * (shiftToEven n places * 2 ^ places) + 2 ^ places →
            shiftToEven n places % 2 = 0) := by
  have hunit : 0 < 2 ^ places := Nat.two_pow_pos places
  have hdiv := Nat.div_add_mod' n (2 ^ places)
  have hmod := Nat.mod_lt n hunit
  rw [shiftToEven_eq_ite]
  generalize 2 ^ places = d at *
  generalize n % d = remainder at *
  have hsucc : (n / d + 1) * d = n / d * d + d := Nat.succ_mul ..
  split
  · omega
  · split
    · omega
    · rcases Nat.mod_two_eq_zero_or_one (n / d) with heven | hodd
      · rw [heven, Nat.add_zero]
        omega
      · rw [hodd]
        omega

theorem shiftToEven_eq_or (n places : Nat) :
    shiftToEven n places = n / 2 ^ places ∨ shiftToEven n places = n / 2 ^ places + 1 := by
  rw [shiftToEven_eq_ite]
  split
  · exact .inl rfl
  · split <;> omega

/-- Shifting by nothing more than there are zeros rounds nothing. -/
theorem shiftToEven_mul_two_pow (n places : Nat) : shiftToEven (n * 2 ^ places) places = n := by
  have hunit : 0 < 2 ^ places := Nat.two_pow_pos places
  exact shiftToEven_eq (by omega) (by omega) (by omega)

/-- Zeros at the end make no difference. -/
theorem shiftToEven_scale (n places k : Nat) :
    shiftToEven (n * 2 ^ k) (places + k) = shiftToEven n places := by
  have hk : 0 < 2 ^ k := Nat.two_pow_pos k
  rw [shiftToEven_eq_ite, shiftToEven_eq_ite, Nat.pow_add, Nat.mul_div_mul_right _ _ hk,
    Nat.mul_mod_mul_right]
  simp only [← Nat.mul_assoc, Nat.mul_lt_mul_right hk]

/-- One formula for numbers of any size: the leading one goes to bit 52, and what hangs over is
rounded away. -/
theorem nearestBits_eq {n : Nat} (h : n ≠ 0) :
    nearestBits n = (n.log2 + 1022) * 2 ^ 52 + shiftToEven (n * 2 ^ 52) n.log2 := by
  unfold nearestBits
  rw [if_neg h]
  simp only [Nat.shiftLeft_eq]
  congr 1
  split
  · rename_i hle
    have hsplit : n * 2 ^ 52 = n * 2 ^ (52 - n.log2) * 2 ^ n.log2 := by
      rw [Nat.mul_assoc, ← Nat.pow_add, Nat.sub_add_cancel hle]
    rw [hsplit, shiftToEven_mul_two_pow]
  · have hsplit : n.log2 - 52 + 52 = n.log2 := by omega
    rw [← shiftToEven_scale n (n.log2 - 52) 52, hsplit]

/-! ## The interval of a double

Its ends are compared with numbers in quarters of the smallest double, of which one has
`2 ^ (oneScale + 2)`. A double of at least one has a scale `c + 1022`: it lies between `2 ^ c` and
`2 ^ (c + 1)`, and quarters of `2 ^ -52` are fine enough for it. -/

section Interval

variable {x : Float} {c : Nat}

theorem quarter_eq (x : Float) : quarter x = 2 ^ (scale x - 1076) * 5 ^ (1076 - scale x) := by
  unfold quarter
  generalize scale x - 1076 = above
  generalize 1076 - scale x = below
  rw [Nat.shiftLeft_eq, Nat.mul_comm]
  rfl

/-- A factor two is in the power of two or in the power of ten. -/
private theorem two_pow_sub_mul (s p : Nat) :
    2 ^ (s - p) * 5 ^ (p - s) * 2 ^ p = 2 ^ s * 10 ^ (p - s) := by
  have hten : (10 : Nat) ^ (p - s) = 2 ^ (p - s) * 5 ^ (p - s) := by
    rw [← Nat.mul_pow]
  have hpow : 2 ^ (s - p) * 2 ^ p = 2 ^ s * 2 ^ (p - s) := by
    rw [← Nat.pow_add, ← Nat.pow_add]
    congr 1
    omega
  rw [hten, Nat.mul_right_comm, hpow, Nat.mul_assoc]

/-- A quarter of the spacing, as so many quarters of the smallest double. -/
theorem quarter_mul_unit (x : Float) :
    quarter x * 2 ^ (oneScale + 2) = 2 ^ scale x * 10 ^ places x := by
  obtain ⟨p, hone, hp⟩ : ∃ p, oneScale + 2 = p ∧ 1076 = p := ⟨1076, rfl, rfl⟩
  rw [quarter_eq, places, hone, hp]
  exact two_pow_sub_mul (scale x) p

/-- A quarter of the spacing is `2 ^ c` in units of `2 ^ -54`. -/
theorem quarter_mul (h : scale x = c + 1022) :
    quarter x * 2 ^ 54 = 2 ^ c * 10 ^ places x := by
  obtain ⟨k, hone, hk⟩ : ∃ k, oneScale + 2 = 54 + k ∧ scale x = c + k := ⟨1022, rfl, h⟩
  have hunit := quarter_mul_unit x
  rw [hone, hk, Nat.pow_add, Nat.pow_add, ← Nat.mul_assoc, Nat.mul_right_comm (2 ^ c)] at hunit
  exact Nat.eq_of_mul_eq_mul_right (Nat.two_pow_pos k) hunit

/-- The distance, in quarters of the spacing, to the lower end of the interval. -/
def lowerGap (x : Float) : Nat := if halvesBelow x then 1 else 2

/-- The numbers in the interval of a double are between its ends, and at an end only if the
significand is even. -/
theorem bounds_of_holds {n : Nat} (hholds : (Interval.ofFloat x).holds n = true) :
    (4 * significand x - lowerGap x) * quarter x ≤ n ∧
      n ≤ (4 * significand x + 2) * quarter x ∧
        (significand x % 2 = 0 ∨ (4 * significand x - lowerGap x) * quarter x < n ∧
          n < (4 * significand x + 2) * quarter x) := by
  have hgap : (if halvesBelow x then quarter x else 2 * quarter x) = lowerGap x * quarter x := by
    unfold lowerGap
    split <;> omega
  simp only [Interval.ofFloat, Interval.holds, hgap, ← Nat.sub_mul, ← Nat.add_mul] at hholds
  split at hholds <;> simp only [Bool.and_eq_true, decide_eq_true_eq] at *
  · rename_i heven
    exact ⟨hholds.1, hholds.2, .inl heven⟩
  · exact ⟨Nat.le_of_lt hholds.1, Nat.le_of_lt hholds.2, .inr hholds⟩

/-- Quarters and natural numbers on a common grid. -/
private theorem scale_eq (h : scale x = c + 1022) (a n : Nat) :
    a * quarter x * 2 ^ 54 = a * 2 ^ c * 10 ^ places x ∧
      n * 10 ^ places x * 2 ^ 54 = n * 2 ^ 54 * 10 ^ places x := by
  rw [Nat.mul_assoc, quarter_mul h, Nat.mul_assoc]
  exact ⟨rfl, Nat.mul_right_comm ..⟩

theorem mul_quarter_le_iff (h : scale x = c + 1022) (a n : Nat) :
    a * quarter x ≤ n * 10 ^ places x ↔ a * 2 ^ c ≤ n * 2 ^ 54 := by
  obtain ⟨ha, hn⟩ := scale_eq h a n
  rw [← Nat.mul_le_mul_right_iff (Nat.two_pow_pos 54), ha, hn,
    Nat.mul_le_mul_right_iff (Nat.pow_pos (by decide))]

theorem le_mul_quarter_iff (h : scale x = c + 1022) (a n : Nat) :
    n * 10 ^ places x ≤ a * quarter x ↔ n * 2 ^ 54 ≤ a * 2 ^ c := by
  obtain ⟨ha, hn⟩ := scale_eq h a n
  rw [← Nat.mul_le_mul_right_iff (Nat.two_pow_pos 54), ha, hn,
    Nat.mul_le_mul_right_iff (Nat.pow_pos (by decide))]

/-- The natural numbers in the interval of a double of at least one. -/
theorem bounds_of_holds_natural (h : scale x = c + 1022) {n : Nat}
    (hholds : (Interval.ofFloat x).holds (n * 10 ^ places x) = true) :
    (4 * significand x - lowerGap x) * 2 ^ c ≤ n * 2 ^ 54 ∧
      n * 2 ^ 54 ≤ (4 * significand x + 2) * 2 ^ c ∧
        (significand x % 2 = 0 ∨ (4 * significand x - lowerGap x) * 2 ^ c < n * 2 ^ 54 ∧
          n * 2 ^ 54 < (4 * significand x + 2) * 2 ^ c) := by
  have hbounds := bounds_of_holds hholds
  rwa [← Nat.not_le, ← Nat.not_le, mul_quarter_le_iff h, le_mul_quarter_iff h,
    mul_quarter_le_iff h, le_mul_quarter_iff h, Nat.not_le, Nat.not_le] at hbounds

/-- A double of at least one is normal. -/
theorem bits_eq_of_scale (h : scale x = c + 1022) (hsign : isNegative x = false) :
    2 ^ 52 ≤ significand x ∧ significand x < 2 ^ 53 ∧
      bits x + 2 ^ 52 = (c + 1023) * 2 ^ 52 + significand x := by
  have hfrac := fraction_lt x
  have hbits := bits_eq x
  rw [hsign, if_neg (by decide)] at hbits
  unfold scale at h
  rw [significand_eq]
  split <;> omega

/-- The interval reaches below `2 ^ c` only at `2 ^ c` itself, and then not far. -/
theorem lowerGap_cases (h : scale x = c + 1022) :
    lowerGap x = 1 ∧ significand x = 2 ^ 52 ∨ lowerGap x = 2 ∧ 2 ^ 52 < significand x := by
  unfold scale at h
  rw [significand_eq, if_neg (by omega)]
  unfold lowerGap halvesBelow
  split
  · simp_all
  · simp_all
    omega

/-- A number in the interval has as many bits as the double, or one bit less if the double is a
power of two. -/
theorem log2_of_holds (h : scale x = c + 1022) (hsign : isNegative x = false) {n : Nat}
    (hholds : (Interval.ofFloat x).holds (n * 10 ^ places x) = true) :
    n ≠ 0 ∧ (n.log2 = c ∨ n.log2 + 1 = c ∧ significand x = 2 ^ 52) := by
  obtain ⟨hlow, hhigh, -⟩ := bounds_of_holds_natural h hholds
  obtain ⟨hsig, hsig', -⟩ := bits_eq_of_scale h hsign
  have hgap := lowerGap_cases h
  have hunit : 0 < 2 ^ c := Nat.two_pow_pos c
  have hsucc : 2 ^ (c + 1) = 2 * 2 ^ c := Nat.pow_succ'
  -- bounds on the products, which are unknowns to the arithmetic below
  have hlow' : (2 ^ 54 - 1) * 2 ^ c ≤ (4 * significand x - lowerGap x) * 2 ^ c :=
    Nat.mul_le_mul_right _ (by omega)
  have hhigh' : (4 * significand x + 2) * 2 ^ c ≤ (2 ^ 55 - 2) * 2 ^ c :=
    Nat.mul_le_mul_right _ (by omega)
  have hn : n ≠ 0 := by omega
  have hlog : n.log2 < c + 1 := (Nat.log2_lt hn).mpr (by omega)
  refine ⟨hn, ?_⟩
  by_cases hbinade : n.log2 = c
  · exact .inl hbinade
  · obtain ⟨c, rfl⟩ : ∃ k, c = k + 1 := ⟨c - 1, by omega⟩
    have hbelow : n < 2 ^ (c + 1) := (Nat.log2_lt hn).mp (by omega)
    have hhalf : 2 ^ (c + 1) = 2 * 2 ^ c := Nat.pow_succ'
    have hbinade' : c ≤ n.log2 := (Nat.le_log2 hn).mpr (by omega)
    refine .inr ⟨by omega, ?_⟩
    rcases Nat.eq_or_lt_of_le hsig with heq | hlt
    · exact heq.symm
    · have : (2 ^ 54 + 2) * 2 ^ (c + 1) ≤ (4 * significand x - lowerGap x) * 2 ^ (c + 1) :=
        Nat.mul_le_mul_right _ (by omega)
      omega

/-- A number in the interval of a double of at least one has its bits. -/
theorem nearestBits_of_holds (h : scale x = c + 1022) (hsign : isNegative x = false) {n : Nat}
    (hholds : (Interval.ofFloat x).holds (n * 10 ^ places x) = true) :
    nearestBits n = bits x := by
  obtain ⟨hlow, hhigh, hends⟩ := bounds_of_holds_natural h hholds
  obtain ⟨hsig, -, hbits⟩ := bits_eq_of_scale h hsign
  have hgap := lowerGap_cases h
  obtain ⟨hn, hlog⟩ := log2_of_holds h hsign hholds
  rw [nearestBits_eq hn]
  rcases hlog with hlog | ⟨rfl, hpower⟩
  · have hsigLow : 4 * (significand x * 2 ^ c) ≤
        (4 * significand x - lowerGap x) * 2 ^ c + 2 * 2 ^ c := by
      rw [← Nat.mul_assoc, ← Nat.add_mul]
      exact Nat.mul_le_mul_right _ (by omega)
    have hsigHigh : (4 * significand x + 2) * 2 ^ c = 4 * (significand x * 2 ^ c) + 2 * 2 ^ c := by
      rw [Nat.add_mul, Nat.mul_assoc]
    have hshift : shiftToEven (n * 2 ^ 52) c = significand x :=
      shiftToEven_eq (by omega) (by omega) (by omega)
    rw [hlog, hshift]
    omega
  · -- the number has one bit less, so the rounding carries
    have hlow' : (2 ^ 54 - 1) * 2 ^ (n.log2 + 1) ≤ n * 2 ^ 54 := by
      refine Nat.le_trans (Nat.mul_le_mul_right _ ?_) hlow
      omega
    have hhalf : 2 ^ (n.log2 + 1) = 2 * 2 ^ n.log2 := Nat.pow_succ'
    have hbelow : n < 2 ^ (n.log2 + 1) := Nat.lt_log2_self
    have hshift : shiftToEven (n * 2 ^ 52) n.log2 = 2 ^ 53 :=
      shiftToEven_eq (by omega) (by omega) fun _ => by decide
    rw [hshift]
    omega

end Interval

/-! ## What is read -/

/-- The rounded significand has 53 bits, or it is the power of two after them. -/
theorem shiftToEven_log2_bounds {n : Nat} (h : n ≠ 0) :
    2 ^ 52 ≤ shiftToEven (n * 2 ^ 52) n.log2 ∧ shiftToEven (n * 2 ^ 52) n.log2 ≤ 2 ^ 53 := by
  have hunit : 0 < 2 ^ n.log2 := Nat.two_pow_pos _
  have hle : 2 ^ n.log2 ≤ n := Nat.log2_self_le h
  have hlt : n < 2 ^ (n.log2 + 1) := Nat.lt_log2_self
  rw [Nat.pow_succ] at hlt
  have hlow : 2 ^ 52 ≤ n * 2 ^ 52 / 2 ^ n.log2 := by
    rw [Nat.le_div_iff_mul_le hunit]
    omega
  have hhigh : n * 2 ^ 52 / 2 ^ n.log2 < 2 ^ 53 := by
    rw [Nat.div_lt_iff_lt_mul hunit]
    omega
  rcases shiftToEven_eq_or (n * 2 ^ 52) n.log2 with heq | heq <;> omega

/-- The significand of the double that is read is the rounded one, or there was a carry out of
it. -/
theorem fields_of_nearestBits {n : Nat} (hn : n ≠ 0) {x : Float} (hlt : bits x < infinityBits)
    (h : nearestBits n = bits x) :
    significand x = shiftToEven (n * 2 ^ 52) n.log2 ∧ scale x = n.log2 + 1022 ∨
      shiftToEven (n * 2 ^ 52) n.log2 = 2 ^ 53 ∧ significand x = 2 ^ 52 ∧
        scale x = n.log2 + 1 + 1022 := by
  obtain ⟨hlow, hhigh⟩ := shiftToEven_log2_bounds hn
  rw [nearestBits_eq hn] at h
  generalize shiftToEven (n * 2 ^ 52) n.log2 = r at *
  generalize n.log2 = b at *
  rw [infinityBits_eq] at hlt
  rw [significand_eq, scale]
  rcases Nat.eq_or_lt_of_le hhigh with rfl | hsmall
  · have hexp : exponentField x = b + 1024 := by
      rw [exponentField_eq]
      omega
    have hfrac : fraction x = 0 := by
      rw [fraction_eq]
      omega
    rw [hexp, hfrac, if_neg (by omega)]
    exact .inr ⟨rfl, rfl, rfl⟩
  · have hexp : exponentField x = b + 1023 := by
      rw [exponentField_eq]
      omega
    have hfrac : fraction x = r - 2 ^ 52 := by
      rw [fraction_eq]
      omega
    rw [hexp, hfrac, if_neg (by omega)]
    exact .inl ⟨Nat.add_sub_cancel' hlow, rfl⟩

/-- The value of the double that is read, carry or not. -/
theorem significand_mul_of_nearestBits {n : Nat} (hn : n ≠ 0) {x : Float}
    (hlt : bits x < infinityBits) (h : nearestBits n = bits x) :
    significand x * 2 ^ scale x = shiftToEven (n * 2 ^ 52) n.log2 * 2 ^ (n.log2 + 1022) := by
  rcases fields_of_nearestBits hn hlt h with ⟨hsig, hscale⟩ | ⟨hcarry, hsig, hscale⟩
  · rw [hsig, hscale]
  · have hdouble : 2 ^ (n.log2 + 1 + 1022) = 2 * 2 ^ (n.log2 + 1022) := by
      rw [Nat.add_right_comm, Nat.pow_succ']
    rw [hcarry, hsig, hscale, hdouble]
    omega

/-- Only natural numbers are read. -/
theorem whole_of_nearest? {n : Nat} {x : Float} (h : nearest? n = some x) : Whole x := by
  obtain ⟨hlt, hbits⟩ := nearest?_eq_some_iff.mp h
  refine ⟨?_, ?_, ?_⟩
  · rw [isFinite_iff, exponentField_eq]
    rw [infinityBits_eq] at hlt
    omega
  · rw [infinityBits_eq] at hlt
    simp only [isNegative_eq, decide_eq_false_iff_not]
    omega
  · by_cases hn : n = 0
    · have hzero : bits x = 0 := by rw [← hbits, hn]; rfl
      have hsig : significand x = 0 := by
        simp [significand_eq, exponentField_eq, fraction_eq, hzero]
      rw [hsig, Nat.zero_mul]
      exact Nat.dvd_zero _
    · rw [significand_mul_of_nearestBits hn hlt hbits]
      rcases Nat.lt_or_ge n.log2 52 with hshort | hlong
      · have hsplit : n * 2 ^ 52 = n * 2 ^ (52 - n.log2) * 2 ^ n.log2 := by
          rw [Nat.mul_assoc, ← Nat.pow_add, Nat.sub_add_cancel (Nat.le_of_lt hshort)]
        rw [hsplit, shiftToEven_mul_two_pow, Nat.mul_assoc, ← Nat.pow_add]
        have hle : oneScale ≤ 52 - n.log2 + (n.log2 + 1022) := by
          unfold oneScale
          omega
        exact Nat.dvd_mul_left_of_dvd (Nat.pow_dvd_pow 2 hle) n
      · have hle : oneScale ≤ n.log2 + 1022 := by
          unfold oneScale
          omega
        exact Nat.dvd_mul_left_of_dvd (Nat.pow_dvd_pow 2 hle) _

end SnapLisp.Number
