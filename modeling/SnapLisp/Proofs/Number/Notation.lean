import SnapLisp.Proofs.Number.Ranks

/-!
# What a number's text stands for

`StandsFor` relates unsigned numerals, of digits with a point and an exponent, to rational numbers;
`numeralValue` reads the number off the text, so a numeral stands for one number only. Whatever
decisions a `Format` makes, the text of a decimal stands for that decimal (`standsFor_decimal`).
The text of a finite double thus stands for a number that rounds to it (`magnitude_spec`), and no
two finite doubles have one text but the two zeros, where the format writes both alike
(`Format.text_inj`).
-/

namespace SnapLisp.Number

/-! ## Numerals -/

/-- Digits, with a point among them or without one, and the number that they stand for. -/
inductive Pointed : List Char → ℚ → Prop
  | natural {whole : List Char} (hne : whole ≠ []) (hdigits : ∀ c ∈ whole, c.isDigit = true) :
    Pointed whole (Nat.ofDigitChars 10 whole 0)
  | point {whole places : List Char} (hne : whole ≠ [])
    (hdigits : ∀ c ∈ whole ++ places, c.isDigit = true) :
    Pointed (whole ++ '.' :: places)
      (Nat.ofDigitChars 10 (whole ++ places) 0 * 10 ^ (-places.length : ℤ))

/-- An unsigned numeral and the number that it stands for. -/
inductive StandsFor : List Char → ℚ → Prop
  | pointed {cs : List Char} {q : ℚ} (h : Pointed cs q) : StandsFor cs q
  | exponent {cs : List Char} {q : ℚ} (h : Pointed cs q) (e : ℤ) :
    StandsFor (cs ++ 'e' :: Decimal.exponentText e) (q * 10 ^ e)

/-- The characters of numerals, and the sign in front of them. -/
def isNumeral (c : Char) : Bool := c.isDigit || c ∈ ['.', 'e', '+', '-']

variable {cs : List Char} {q : ℚ}

theorem isDigit_toDigits (n : Nat) : ∀ c ∈ Nat.toDigits 10 n, c.isDigit = true :=
  fun _ hc => Nat.isDigit_of_mem_toDigits (by decide) (by decide) hc

theorem isDigit_zeros (k : Nat) : ∀ c ∈ List.replicate k '0', c.isDigit = true := fun c hc => by
  rw [List.eq_of_mem_replicate hc]
  decide

theorem isNumeral_of_isDigit {c : Char} (h : c.isDigit = true) : isNumeral c = true := by
  rw [isNumeral, h, Bool.true_or]

/-- No digit is a mark. -/
theorem notMem_of_isDigit {mark : Char} (hmark : mark.isDigit = false)
    (h : ∀ c ∈ cs, c.isDigit = true) : mark ∉ cs := fun hmem => by
  rw [h mark hmem] at hmark
  cases hmark

theorem Pointed.chars (h : Pointed cs q) : ∀ c ∈ cs, c.isDigit = true ∨ c = '.' := by
  cases h with
  | natural hne hdigits => exact fun c hc => .inl (hdigits c hc)
  | point hne hdigits =>
    intro c hc
    rcases List.mem_append.mp hc with hwhole | hpoint
    · exact .inl (hdigits c (List.mem_append_left _ hwhole))
    · rcases List.mem_cons.mp hpoint with heq | hplaces
      · exact .inr heq
      · exact .inl (hdigits c (List.mem_append_right _ hplaces))

theorem Pointed.exists_digit (h : Pointed cs q) :
    ∃ first rest, cs = first :: rest ∧ first.isDigit = true := by
  cases h with
  | natural hne hdigits =>
    obtain ⟨first, rest, rfl⟩ := List.exists_cons_of_ne_nil hne
    exact ⟨first, rest, rfl, hdigits first (.head _)⟩
  | point hne hdigits =>
    obtain ⟨first, rest, rfl⟩ := List.exists_cons_of_ne_nil hne
    exact ⟨first, _, rfl, hdigits first (.head _)⟩

/-- A numeral begins with a digit. -/
theorem StandsFor.exists_digit (h : StandsFor cs q) :
    ∃ first rest, cs = first :: rest ∧ first.isDigit = true := by
  cases h with
  | pointed h => exact h.exists_digit
  | exponent h e =>
    obtain ⟨first, rest, rfl, hfirst⟩ := h.exists_digit
    exact ⟨first, _, rfl, hfirst⟩

theorem isNumeral_exponentText (e : ℤ) :
    ∀ c ∈ 'e' :: Decimal.exponentText e, isNumeral c = true := by
  intro c hc
  rcases List.mem_cons.mp hc with rfl | hc
  · decide
  · rcases List.mem_cons.mp hc with rfl | hdigit
    · split <;> decide
    · exact isNumeral_of_isDigit (isDigit_toDigits _ c hdigit)

theorem StandsFor.isNumeral (h : StandsFor cs q) : ∀ c ∈ cs, isNumeral c = true := by
  have hpointed {m : List Char} {r : ℚ} (h : Pointed m r) (c : Char) (hc : c ∈ m) :
      Number.isNumeral c = true := by
    rcases h.chars c hc with hdigit | rfl
    · exact isNumeral_of_isDigit hdigit
    · decide
  cases h with
  | pointed h => exact hpointed h
  | exponent h e =>
    intro c hc
    rcases List.mem_append.mp hc with hc | hc
    · exact hpointed h c hc
    · exact isNumeral_exponentText e c hc

/-! ## Reading a numeral -/

/-- The number that digits with a point among them stand for. -/
def pointValue (cs : List Char) : ℚ :=
  let places := (cs.dropWhile (· ≠ '.')).tail
  Nat.ofDigitChars 10 (cs.takeWhile (· ≠ '.') ++ places) 0 * 10 ^ (-places.length : ℤ)

/-- The number that a sign with digits after it stands for. -/
def exponentValue : List Char → ℤ
  | [] => 0
  | sign :: digits =>
    if sign = '-' then -Nat.ofDigitChars 10 digits 0 else Nat.ofDigitChars 10 digits 0

/-- The number that an unsigned numeral stands for. -/
def numeralValue (cs : List Char) : ℚ :=
  pointValue (cs.takeWhile (· ≠ 'e')) * 10 ^ exponentValue (cs.dropWhile (· ≠ 'e')).tail

/-- A text is cut at the first mark. -/
theorem takeWhile_dropWhile_ne {front rest : List Char} {mark : Char} (hfront : mark ∉ front)
    (hrest : ∀ c ∈ rest.head?, c = mark) :
    (front ++ rest).takeWhile (· ≠ mark) = front ∧
      (front ++ rest).dropWhile (· ≠ mark) = rest := by
  refine takeWhile_dropWhile_of_stop (fun c hc => ?_) fun c hc => by simp [hrest c hc]
  exact decide_eq_true fun heq => hfront (heq ▸ hc)

/-- A text without the mark is not cut. -/
theorem takeWhile_dropWhile_of_notMem {mark : Char} (h : mark ∉ cs) :
    cs.takeWhile (· ≠ mark) = cs ∧ cs.dropWhile (· ≠ mark) = [] := by
  have hcut := @takeWhile_dropWhile_ne cs [] mark h (by simp)
  rwa [List.append_nil] at hcut

theorem exponentValue_exponentText (e : ℤ) : exponentValue (Decimal.exponentText e) = e := by
  unfold exponentValue Decimal.exponentText
  simp only [Nat.ofDigitChars_ten_toDigits]
  split
  · rw [if_pos rfl]
    omega
  · rw [if_neg (by decide)]
    omega

theorem Pointed.pointValue_eq (h : Pointed cs q) : pointValue cs = q := by
  cases h with
  | natural hne hdigits =>
    have hmark : '.' ∉ cs := notMem_of_isDigit (by decide) hdigits
    obtain ⟨htake, hdrop⟩ := takeWhile_dropWhile_of_notMem hmark
    rw [pointValue, htake, hdrop]
    simp
  | @point whole places hne hdigits =>
    have hmark : '.' ∉ whole :=
      notMem_of_isDigit (by decide) fun c hc => hdigits c (List.mem_append_left _ hc)
    obtain ⟨htake, hdrop⟩ := @takeWhile_dropWhile_ne whole ('.' :: places) '.' hmark (by simp)
    rw [pointValue, htake, hdrop, List.tail_cons]

/-- A numeral stands for one number only. -/
theorem StandsFor.numeralValue_eq (h : StandsFor cs q) : numeralValue cs = q := by
  have hmark {m : List Char} {r : ℚ} (h : Pointed m r) : 'e' ∉ m := fun hmem => by
    rcases h.chars 'e' hmem with hdigit | heq
    · exact absurd hdigit (by decide)
    · exact absurd heq (by decide)
  cases h with
  | pointed h =>
    obtain ⟨htake, hdrop⟩ := takeWhile_dropWhile_of_notMem (hmark h)
    rw [numeralValue, htake, hdrop, h.pointValue_eq]
    simp [exponentValue]
  | @exponent m r h e =>
    obtain ⟨htake, hdrop⟩ := @takeWhile_dropWhile_ne m ('e' :: Decimal.exponentText e) 'e'
      (hmark h) (by simp)
    rw [numeralValue, htake, hdrop, List.tail_cons, h.pointValue_eq, exponentValue_exponentText]

/-! ## The notations -/

section Decimal

variable (d : Decimal)

theorem ofDigitChars_zeros_append (k n : Nat) :
    Nat.ofDigitChars 10 (List.replicate k '0' ++ Nat.toDigits 10 n) 0 = n := by
  rw [Nat.ofDigitChars_append, Nat.ofDigitChars_replicate_zero, Nat.mul_zero,
    Nat.ofDigitChars_ten_toDigits]

theorem ofDigitChars_append_zeros (k n : Nat) :
    Nat.ofDigitChars 10 (Nat.toDigits 10 n ++ List.replicate k '0') 0 = n * 10 ^ k := by
  rw [Nat.ofDigitChars_append, Nat.ofDigitChars_replicate_zero, Nat.ofDigitChars_ten_toDigits,
    Nat.mul_comm]

/-- Digits with a point among them stand for a decimal if they are its digits with zeros on either
side, and the point is where the exponent says. -/
theorem Pointed.of_decimal {whole places : List Char} (k : Nat) (hne : whole ≠ [])
    (hdigits : ∀ c ∈ whole ++ places, c.isDigit = true)
    (hvalue : Nat.ofDigitChars 10 (whole ++ places) 0 = d.digits * 10 ^ k)
    (hexponent : d.exponent = k - places.length) : Pointed (whole ++ '.' :: places) d.value := by
  have hpointed := Pointed.point hne hdigits
  have heq : ((Nat.ofDigitChars 10 (whole ++ places) 0 : Nat) : ℚ) * 10 ^ (-places.length : ℤ) =
      d.value := by
    rw [hvalue, Decimal.value, hexponent, sub_eq_add_neg, zpow_add₀ (by norm_num), zpow_natCast]
    push_cast
    ring
  rwa [heq] at hpointed

/-- Zeros between the point and the digits. -/
theorem pointed_below_one (k : Nat)
    (hexponent : d.exponent = -(k + (Nat.toDigits 10 d.digits).length : Nat)) :
    Pointed ('0' :: '.' :: (List.replicate k '0' ++ Nat.toDigits 10 d.digits)) d.value := by
  refine .of_decimal d 0 (List.cons_ne_nil '0' []) ?_ ?_ ?_
  · exact List.forall_mem_append.mpr
      ⟨isDigit_zeros 1, List.forall_mem_append.mpr ⟨isDigit_zeros k, isDigit_toDigits _⟩⟩
  · rw [Nat.pow_zero, Nat.mul_one]
    exact ofDigitChars_zeros_append (k + 1) d.digits
  · rw [List.length_append, List.length_replicate]
    omega

/-- Zeros between the digits and the point. -/
theorem pointed_whole (point : Bool) (k : Nat) (hexponent : d.exponent = k) :
    Pointed (Nat.toDigits 10 d.digits ++ List.replicate k '0' ++ if point then ['.', '0'] else [])
      d.value := by
  have hne : Nat.toDigits 10 d.digits ++ List.replicate k '0' ≠ [] := by
    simp [Nat.toDigits_ne_nil]
  have hwhole := List.forall_mem_append.mpr ⟨isDigit_toDigits d.digits, isDigit_zeros k⟩
  cases point with
  | false =>
    have hpointed := Pointed.natural hne hwhole
    rw [ofDigitChars_append_zeros] at hpointed
    rw [Decimal.value, hexponent]
    simpa using hpointed
  | true =>
    refine .of_decimal d (k + 1) hne ?_ ?_ ?_
    · exact List.forall_mem_append.mpr ⟨hwhole, isDigit_zeros 1⟩
    · rw [List.append_assoc, ← ofDigitChars_append_zeros, List.replicate_succ']
    · rw [hexponent]
      simp

/-- The point among the digits. -/
theorem pointed_within {k : Nat} (hpos : 0 < k) (hlt : k < (Nat.toDigits 10 d.digits).length)
    (hexponent : d.exponent = k - (Nat.toDigits 10 d.digits).length) :
    Pointed ((Nat.toDigits 10 d.digits).take k ++ '.' :: (Nat.toDigits 10 d.digits).drop k)
      d.value := by
  refine .of_decimal d 0 ?_ ?_ ?_ ?_
  · exact List.ne_nil_of_length_pos (by rw [List.length_take]; omega)
  · rw [List.take_append_drop]
    exact isDigit_toDigits _
  · rw [List.take_append_drop, Nat.pow_zero, Nat.mul_one, Nat.ofDigitChars_ten_toDigits]
  · rw [List.length_drop]
    omega

theorem pointed_positional (point : Bool) : Pointed (d.positional point) d.value := by
  have hleading : d.leading + 1 = (Nat.toDigits 10 d.digits).length + d.exponent := by
    unfold Decimal.leading
    omega
  unfold Decimal.positional
  simp only [hleading]
  split
  · exact pointed_below_one d _ (by omega)
  · split
    · exact pointed_whole d point _ (by omega)
    · exact pointed_within d (by omega) (by omega) (by omega)

/-- Scientific notation: the point stands behind the leading digit, whose exponent is given. -/
theorem standsFor_scientific : StandsFor d.scientific d.value := by
  have hdigits := isDigit_toDigits d.digits
  have hvalue := @Nat.ofDigitChars_ten_toDigits d.digits
  have hleading : d.leading = (Nat.toDigits 10 d.digits).length - 1 + d.exponent := rfl
  unfold Decimal.scientific
  split
  · rename_i hnil
    exact absurd hnil Nat.toDigits_ne_nil
  · rename_i head tail htext
    rw [htext] at hdigits hvalue hleading
    have hpointed : Pointed (head :: if tail.isEmpty then [] else '.' :: tail)
        (⟨d.digits, -tail.length⟩ : Decimal).value := by
      cases tail with
      | nil =>
        have hnatural := Pointed.natural (List.cons_ne_nil head []) hdigits
        rw [hvalue] at hnatural
        simpa [Decimal.value] using hnatural
      | cons next tail =>
        refine .of_decimal ⟨d.digits, _⟩ 0 (List.cons_ne_nil head []) hdigits ?_ ?_
        · rw [Nat.pow_zero, Nat.mul_one]
          exact hvalue
        · simp
    have hscaled : (⟨d.digits, -tail.length⟩ : Decimal).value * 10 ^ d.leading = d.value := by
      unfold Decimal.value
      rw [mul_assoc, ← zpow_add₀ (by norm_num), hleading, List.length_cons]
      congr 2
      push_cast
      ring
    rw [← hscaled]
    exact .exponent hpointed d.leading

/-- The text of a decimal stands for it, in every format. -/
theorem standsFor_decimal (f : Format) : StandsFor (f.decimal d) d.value := by
  unfold Format.decimal
  split
  · exact .pointed (pointed_positional d _)
  · split
    · exact .pointed (pointed_positional d _)
    · exact standsFor_scientific d

/-- Where whole numbers keep a point, every text has a point or an exponent. -/
theorem exists_mark {f : Format} (h : f.point = true) :
    ∃ c ∈ f.decimal d, c.isDigit = false := by
  have hpositional : ∃ c ∈ d.positional f.point, c.isDigit = false := by
    refine ⟨'.', ?_, by decide⟩
    unfold Decimal.positional
    simp only [h]
    split
    · simp
    · split <;> simp
  have hscientific : ∃ c ∈ d.scientific, c.isDigit = false := by
    refine ⟨'e', ?_, by decide⟩
    unfold Decimal.scientific
    split
    · rename_i hnil
      exact absurd hnil Nat.toDigits_ne_nil
    · simp
  unfold Format.decimal
  split
  · exact hpositional
  · split
    · exact hpositional
    · exact hscientific

end Decimal

/-! ## Doubles -/

section Double

variable {x y : Float}

/-- The text of a finite double, without its sign, stands for a number that rounds to it. -/
theorem magnitude_spec (f : Format) (h : x.isFinite = true) :
    ∃ q, StandsFor (f.magnitude x) q ∧ RoundsTo q (rank x) := by
  unfold Format.magnitude
  rw [isInf_eq_false h, if_neg (by decide)]
  split
  · rename_i hzero
    have htext : '0' :: (if f.point then ['.', '0'] else []) =
        (⟨0, 0⟩ : Decimal).positional f.point := by
      cases f.point <;> rfl
    have hvalue : (⟨0, 0⟩ : Decimal).value = 0 := by simp [Decimal.value]
    rw [rank_eq_zero_iff.mpr hzero, htext]
    exact ⟨_, .pointed (pointed_positional _ _), hvalue ▸ roundsTo_zero⟩
  · rename_i hpos
    exact ⟨_, standsFor_decimal _ f, roundsTo_shortest _ hpos⟩

/-- Texts without sign are equal only for magnitudes of one rank. -/
theorem rank_eq_of_magnitude {f : Format} (hx : x.isFinite = true) (hy : y.isFinite = true)
    (h : f.magnitude x = f.magnitude y) : rank x = rank y := by
  obtain ⟨q, hq, hrx⟩ := magnitude_spec f hx
  obtain ⟨r, hr, hry⟩ := magnitude_spec f hy
  have heq : q = r := by rw [← hq.numeralValue_eq, h, hr.numeralValue_eq]
  exact hrx.unique (heq ▸ hry)

theorem Format.text_eq (f : Format) (h : x.isFinite = true) :
    (f.text x).toList = if f.signed x then '-' :: f.magnitude x else f.magnitude x := by
  unfold Format.text
  rw [isNaN_eq_false h, if_neg (by decide), String.toList_ofList]

/-- **Numbers as text.** Finite doubles have the same text only if they have the same magnitude
and a sign is written for both or for none. -/
theorem Format.text_inj {f : Format} (hx : x.isFinite = true) (hy : y.isFinite = true)
    (h : f.text x = f.text y) : f.signed x = f.signed y ∧ rank x = rank y := by
  have hunsigned {z : Float} (hz : z.isFinite = true) {cs : List Char} :
      '-' :: cs ≠ f.magnitude z := by
    obtain ⟨q, hq, -⟩ := magnitude_spec f hz
    obtain ⟨first, rest, heq, hfirst⟩ := hq.exists_digit
    rw [heq]
    rintro ⟨⟩
    cases hfirst
  have hchars := congrArg String.toList h
  rw [Format.text_eq f hx, Format.text_eq f hy] at hchars
  cases hsx : f.signed x <;> cases hsy : f.signed y <;> simp only [hsx, hsy, if_true,
    Bool.false_eq_true, if_false] at hchars
  · exact ⟨rfl, rank_eq_of_magnitude hx hy hchars⟩
  · exact absurd hchars.symm (hunsigned hx)
  · exact absurd hchars (hunsigned hy)
  · exact ⟨rfl, rank_eq_of_magnitude hx hy (List.cons.inj hchars).2⟩

/-- The text of a finite double is a numeral, with a sign or without one. -/
theorem Format.isNumeral_text (f : Format) (h : x.isFinite = true) :
    ∀ c ∈ (f.text x).toList, isNumeral c = true := by
  obtain ⟨q, hq, -⟩ := magnitude_spec f h
  rw [Format.text_eq f h]
  split
  · exact List.forall_mem_cons.mpr ⟨by decide, hq.isNumeral⟩
  · exact hq.isNumeral

theorem Format.text_ne_nil (f : Format) (h : x.isFinite = true) : (f.text x).toList ≠ [] := by
  obtain ⟨q, hq, -⟩ := magnitude_spec f h
  obtain ⟨first, rest, heq, -⟩ := hq.exists_digit
  rw [Format.text_eq f h, heq]
  split <;> exact List.cons_ne_nil _ _

/-- Where whole numbers keep a point, the text of a finite double is not all digits. -/
theorem Format.exists_mark_text {f : Format} (hpoint : f.point = true) (h : x.isFinite = true) :
    ∃ c ∈ (f.text x).toList, c.isDigit = false := by
  have hmark : ∃ c ∈ f.magnitude x, c.isDigit = false := by
    unfold Format.magnitude
    rw [isInf_eq_false h, if_neg (by decide)]
    split
    · exact ⟨'.', by simp, by decide⟩
    · exact exists_mark _ hpoint
  obtain ⟨c, hc, hdigit⟩ := hmark
  rw [Format.text_eq f h]
  split
  · exact ⟨c, .tail _ hc, hdigit⟩
  · exact ⟨c, hc, hdigit⟩

/-- A format that keeps the sign of negative zero tells all finite doubles apart. -/
theorem Format.eq_of_text {f : Format} (hzero : f.signedZero = true) (hx : x.isFinite = true)
    (hy : y.isFinite = true) (h : f.text x = f.text y) : x = y := by
  obtain ⟨hsigned, hrank⟩ := Format.text_inj hx hy h
  simp only [Format.signed, hzero, Bool.true_or, Bool.and_true] at hsigned
  exact eq_of_rank hsigned hrank

end Double

end SnapLisp.Number
