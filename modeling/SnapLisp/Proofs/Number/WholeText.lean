import SnapLisp.Number.Format
import SnapLisp.Proofs.Number.Rounding
import SnapLisp.Proofs.Source.Bytes
import SnapLisp.Token.Alphabet

/-!
# Natural numbers as text

The text of a double that is a natural number is a run of digits, and reading the run gives the
double back (`nearest?_ofDigits_text`). The run need not spell the double itself: it spells some
number in the rounding interval. That it has no point is because the search for a grid starts from
the coarsest, and the grid of step one has the double on it.
-/

namespace SnapLisp.Number

/-! ## The search for a grid -/

namespace Interval

variable {i : Interval} {tie : Tie}

/-- What is found on a grid lies in the interval. -/
theorem holds_of_onGrid? {step digits : Nat} (h : i.onGrid? tie step = some digits) :
    i.holds (digits * step) = true := by
  unfold onGrid? at h
  simp only [] at h
  split at h
  · rename_i hbelow habove
    split at h
    · cases h
      exact hbelow
    · cases h
      exact habove
    · cases tie with
      | up => cases h; exact habove
      | even =>
        cases h
        rcases Nat.mod_two_eq_zero_or_one (i.value / step) with heven | hodd
        · rwa [heven]
        · rwa [hodd]
  · rename_i hbelow _
    cases h
    exact hbelow
  · rename_i _ habove
    cases h
    exact habove
  · cases h

/-- A grid that has the value on it has a point in the interval. -/
theorem onGrid?_ne_none {step : Nat} (hvalue : i.holds i.value = true) (h : step ∣ i.value) :
    i.onGrid? tie step ≠ none := by
  have hbelow : i.holds (i.value / step * step) = true := by rwa [Nat.div_mul_cancel h]
  unfold onGrid?
  simp only [hbelow]
  cases i.holds ((i.value / step + 1) * step) with
  | false => simp
  | true => cases compare (i.value - i.value / step * step) _ <;> cases tie <;> simp

/-- The search ends in the interval, and it passes no grid that has the value on it. -/
theorem coarsest_spec (hvalue : i.holds i.value = true) (k : Nat) :
    i.holds ((i.coarsest tie k).1 * 10 ^ (i.coarsest tie k).2) = true ∧
      ∀ m ≤ k, 10 ^ m ∣ i.value → m ≤ (i.coarsest tie k).2 := by
  induction k with
  | zero => exact ⟨by simpa [coarsest] using hvalue, fun m hm _ => hm⟩
  | succ k ih =>
    unfold coarsest
    split
    · rename_i digits hgrid
      exact ⟨holds_of_onGrid? hgrid, fun m hm _ => hm⟩
    · rename_i hgrid
      refine ⟨ih.1, fun m hm hdvd => ih.2 m ?_ hdvd⟩
      have hne : m ≠ k + 1 := by
        rintro rfl
        exact onGrid?_ne_none hvalue hdvd hgrid
      omega

end Interval

/-! ## The decimal of a natural number -/

section Decimal

variable {x : Float}

theorem Whole.bits_lt (h : Whole x) : bits x < infinityBits := by
  have hexp := exponentField_lt x
  have hfrac := fraction_lt x
  have hbits := bits_eq x
  have hfinite := isFinite_iff.mp h.finite
  rw [h.sign, if_neg (by decide)] at hbits
  rw [infinityBits_eq]
  omega

/-- A natural number that is not zero is a normal double. -/
theorem Whole.exists_scale (h : Whole x) (hpos : significand x ≠ 0) :
    ∃ c, scale x = c + 1022 := by
  have hsig : significand x < 2 ^ 53 := by
    have hfrac := fraction_lt x
    rw [significand_eq]
    split <;> omega
  have hle := Nat.le_of_dvd (Nat.mul_pos (Nat.pos_of_ne_zero hpos) (Nat.two_pow_pos _)) h.integral
  have hlt : significand x * 2 ^ scale x < 2 ^ (53 + scale x) := by
    rw [Nat.pow_add]
    exact Nat.mul_lt_mul_of_pos_right hsig (Nat.two_pow_pos _)
  have hexp : oneScale < 53 + scale x :=
    (Nat.pow_lt_pow_iff_right (by decide)).mp (Nat.lt_of_le_of_lt hle hlt)
  unfold oneScale at hexp
  exact ⟨scale x - 1022, by omega⟩

/-- The double lies on the grid of step one. -/
theorem Whole.pow_dvd_value (h : Whole x) {c : Nat} (hc : scale x = c + 1022) :
    10 ^ places x ∣ (Interval.ofFloat x).value := by
  obtain ⟨k, hone, hk⟩ : ∃ k, oneScale = 52 + k ∧ scale x = c + k := ⟨1022, rfl, hc⟩
  have hdvd := h.integral
  rw [hone, hk, Nat.pow_add, Nat.pow_add, ← Nat.mul_assoc] at hdvd
  obtain ⟨v, hv⟩ := Nat.dvd_of_mul_dvd_mul_right (Nat.two_pow_pos k) hdvd
  refine ⟨v, Nat.eq_of_mul_eq_mul_right (Nat.two_pow_pos 54) ?_⟩
  calc 4 * significand x * quarter x * 2 ^ 54
      = 4 * (significand x * 2 ^ c) * 10 ^ places x := by
        rw [Nat.mul_assoc _ (quarter x), quarter_mul hc, ← Nat.mul_assoc, Nat.mul_assoc 4]
    _ = 10 ^ places x * v * 2 ^ 54 := by
        rw [hv]
        ring

theorem quarter_pos (x : Float) : 0 < quarter x := by
  rw [quarter_eq]
  exact Nat.mul_pos (Nat.two_pow_pos _) (Nat.pow_pos (by decide))

theorem value_pos (hpos : significand x ≠ 0) : 0 < (Interval.ofFloat x).value :=
  Nat.mul_pos (by omega) (quarter_pos x)

/-- A positive double lies in its own interval. -/
theorem holds_value (hpos : significand x ≠ 0) :
    (Interval.ofFloat x).holds (Interval.ofFloat x).value = true := by
  have hquarter := quarter_pos x
  have hvalue : 0 < 4 * significand x * quarter x := value_pos hpos
  unfold Interval.ofFloat Interval.holds
  simp only []
  split <;> split <;> simp <;> omega

/-- The search starts beyond the grid of step one. -/
theorem lt_start {n p : Nat} (hpos : n ≠ 0) (h : 10 ^ p ∣ n) : p ≤ n.log2 / 3 + 1 := by
  have hle : 10 ^ p ≤ n := Nat.le_of_dvd (Nat.pos_of_ne_zero hpos) h
  have hlt : n < 10 ^ (n.log2 / 3 + 1) := calc
    n < 2 ^ (n.log2 + 1) := Nat.lt_log2_self
    _ ≤ 2 ^ (3 * (n.log2 / 3 + 1)) := Nat.pow_le_pow_right (by decide) (by omega)
    _ = 8 ^ (n.log2 / 3 + 1) := Nat.pow_mul 2 3 _
    _ ≤ 10 ^ (n.log2 / 3 + 1) := Nat.pow_le_pow_left (by decide) _
  have hexp : p < n.log2 / 3 + 1 :=
    (Nat.pow_lt_pow_iff_right (by decide)).mp (Nat.lt_of_le_of_lt hle hlt)
  omega

/-- The shortest decimal of a natural number has no negative exponent, and it is read as the
number. -/
theorem Whole.shortest_eq (h : Whole x) (hpos : significand x ≠ 0) (tie : Tie) :
    ∃ digits k : Nat, shortest tie x = ⟨digits, k⟩ ∧ nearest? (digits * 10 ^ k) = some x := by
  obtain ⟨c, hc⟩ := h.exists_scale hpos
  have hdvd := h.pow_dvd_value hc
  have hne : (Interval.ofFloat x).value ≠ 0 := Nat.ne_of_gt (value_pos hpos)
  obtain ⟨hholds, hgrid⟩ := @Interval.coarsest_spec _ tie (holds_value hpos)
    ((Interval.ofFloat x).value.log2 / 3 + 1)
  have hle := hgrid (places x) (lt_start hne hdvd) hdvd
  unfold shortest
  simp only []
  generalize (Interval.ofFloat x).coarsest tie ((Interval.ofFloat x).value.log2 / 3 + 1) = d at *
  obtain ⟨digits, k⟩ := d
  have hk : k - places x + places x = k := Nat.sub_add_cancel hle
  refine ⟨digits, k - places x, ?_, ?_⟩
  · simp only [Decimal.mk.injEq, true_and]
    omega
  · have hread : (Interval.ofFloat x).holds
        (digits * 10 ^ (k - places x) * 10 ^ places x) = true := by
      rwa [Nat.mul_assoc, ← Nat.pow_add, hk]
    exact nearest?_eq_some_iff.mpr ⟨h.bits_lt, nearestBits_of_holds hc h.sign hread⟩

end Decimal

/-! ## Runs of digits -/

/-- A decimal without a negative exponent is written as its digits and zeros after them. -/
theorem Decimal.positional_natCast (digits k : Nat) :
    (⟨digits, k⟩ : Decimal).positional false = Nat.toDigits 10 digits ++ List.replicate k '0' := by
  have hlength : 0 < (Nat.toDigits 10 digits).length := Nat.length_toDigits_pos
  have hbefore : (⟨digits, k⟩ : Decimal).leading + 1 = (Nat.toDigits 10 digits).length + k := by
    show ((Nat.toDigits 10 digits).length : Int) - 1 + k + 1 = (Nat.toDigits 10 digits).length + k
    omega
  have habs : ((Nat.toDigits 10 digits).length + (k : Int)).natAbs =
      (Nat.toDigits 10 digits).length + k := by omega
  unfold positional
  simp only [hbefore, habs]
  rw [if_neg (by omega), if_pos (by omega), Nat.add_sub_cancel_left]
  simp

private theorem toNat_of_isDigit {c : Char} (h : c.isDigit = true) :
    48 ≤ c.toNat ∧ c.toNat ≤ 57 := by
  simp only [Char.isDigit, Bool.and_eq_true, decide_eq_true_eq] at h
  exact ⟨h.1, h.2⟩

/-- Digit characters are read as they are. -/
theorem ofDigits_map {cs : List Char} (h : ∀ c ∈ cs, c.isDigit = true) (n : Nat) :
    (cs.map fun c => UInt8.ofNat c.toNat).foldl (fun n d => 10 * n + (d.toNat - 48)) n =
      Nat.ofDigitChars 10 cs n := by
  induction cs generalizing n with
  | nil => rfl
  | cons c rest ih =>
    obtain ⟨hlow, hhigh⟩ := toNat_of_isDigit (h c (.head _))
    have hbyte : (UInt8.ofNat c.toNat).toNat = c.toNat := by
      rw [UInt8.toNat_ofNat', Nat.mod_eq_of_lt (by omega)]
    rw [List.map_cons, List.foldl_cons, ih fun d hd => h d (.tail _ hd), Nat.ofDigitChars_cons,
      hbyte]
    rfl

/-- A run of digit characters as bytes. -/
theorem utf8_digits {cs : List Char} (h : ∀ c ∈ cs, c.isDigit = true) :
    (∀ b ∈ Bytes.utf8 (String.ofList cs), Alphabet.isDigit b = true) ∧
      ofDigits (Bytes.utf8 (String.ofList cs)) = Nat.ofDigitChars 10 cs 0 := by
  have hascii : ∀ c ∈ cs, c.toNat < 128 := by
    intro c hc
    have := (toNat_of_isDigit (h c hc)).2
    omega
  rw [Bytes.utf8_ofList_of_ascii hascii]
  refine ⟨fun b hb => ?_, ofDigits_map h 0⟩
  obtain ⟨c, hc, rfl⟩ := List.mem_map.mp hb
  obtain ⟨hlow, hhigh⟩ := toNat_of_isDigit (h c hc)
  have hbyte : (UInt8.ofNat c.toNat).toNat = c.toNat := by
    rw [UInt8.toNat_ofNat', Nat.mod_eq_of_lt (by omega)]
  simp only [Alphabet.isDigit, Bool.and_eq_true, decide_eq_true_eq, UInt8.le_iff_toNat_le, hbyte]
  exact ⟨hlow, hhigh⟩

/-- The characters of a natural number's text. -/
theorem Whole.text_eq {x : Float} (h : Whole x) :
    ∃ cs : List Char, Format.source.text x = String.ofList cs ∧ cs ≠ [] ∧
      (∀ c ∈ cs, c.isDigit = true) ∧ nearest? (Nat.ofDigitChars 10 cs 0) = some x := by
  have hsigned : Format.source.signed x = false := by rw [Format.signed, h.sign, Bool.false_and]
  have htext : Format.source.text x = String.ofList (Format.source.magnitude x) := by
    unfold Format.text
    rw [isNaN_eq_false h.finite, hsigned]
    rfl
  rw [htext]
  unfold Format.magnitude
  rw [isInf_eq_false h.finite, if_neg (by decide)]
  by_cases hzero : significand x = 0
  · rw [if_pos hzero]
    refine ⟨['0'], rfl, by simp, by simp, nearest?_eq_some_iff.mpr ⟨h.bits_lt, ?_⟩⟩
    have hbits := bits_eq x
    have hfields := fields_of_significand_eq_zero hzero
    rw [h.sign, hfields.1, hfields.2] at hbits
    exact hbits.symm
  · obtain ⟨digits, k, hshortest, hread⟩ := h.shortest_eq hzero .up
    have hdecimal : Format.source.decimal (shortest Format.source.tie x) =
        Nat.toDigits 10 digits ++ List.replicate k '0' :=
      (congrArg (Decimal.positional · false) hshortest).trans (Decimal.positional_natCast digits k)
    rw [if_neg hzero, hdecimal]
    refine ⟨_, rfl, by simp [Nat.toDigits_ne_nil], fun c hc => ?_, ?_⟩
    · rcases List.mem_append.mp hc with hc | hc
      · exact Nat.isDigit_of_mem_toDigits (by decide) (by decide) hc
      · rw [List.eq_of_mem_replicate hc]
        decide
    · rwa [Nat.ofDigitChars_append, Nat.ofDigitChars_ten_toDigits,
        Nat.ofDigitChars_replicate_zero, Nat.mul_comm]

/-- **Numbers.** The text of a natural number is a run of digits that is read as the number. -/
theorem Whole.nearest?_ofDigits_text {x : Float} (h : Whole x) :
    Bytes.utf8 (Format.source.text x) ≠ [] ∧
      (∀ b ∈ Bytes.utf8 (Format.source.text x), Alphabet.isDigit b = true) ∧
        nearest? (ofDigits (Bytes.utf8 (Format.source.text x))) = some x := by
  obtain ⟨cs, htext, hne, hdigits, hread⟩ := h.text_eq
  obtain ⟨hbytes, hvalue⟩ := utf8_digits hdigits
  rw [htext]
  refine ⟨fun hnil => hne ?_, hbytes, by rwa [hvalue]⟩
  have hempty : String.ofList cs = "" := Bytes.utf8_injective hnil
  simpa using hempty

theorem text_of_isNegativeZero {x : Float} (h : isNegativeZero x = true) :
    Format.source.text x = "-0" := by
  obtain ⟨hsign, hzero⟩ : isNegative x = true ∧ significand x = 0 := by
    simpa [isNegativeZero] using h
  have hfinite := isFinite_of_significand_eq_zero hzero
  have hsigned : Format.source.signed x = true := by
    rw [Format.signed, hsign]
    rfl
  unfold Format.text
  rw [isNaN_eq_false hfinite, if_neg (by decide), if_pos hsigned]
  unfold Format.magnitude
  rw [isInf_eq_false hfinite, if_neg (by decide), if_pos hzero]
  rfl

end SnapLisp.Number
