import SnapLisp.Proofs.Number.Notation

/-!
# Numbers as values show them

Values show both zeros by one text, and the infinities by their name. So two doubles that are no
NaN are shown by the same text exactly if they are equal as numbers (`beq_iff_display`), and no
such text holds a character that stands between values or around them (`display_chars`).
-/

namespace SnapLisp.Number

open Float.Model Float.Model.UnpackedFloat

variable {x y : Float}

/-! ## Zeros and infinities -/

/-- Without any bit of significand a double is one of the zeros. -/
theorem eq_zero_of_significand (h : significand x = 0) : x = 0 ∨ x = -0 := by
  have hrank : rank x = 0 := rank_eq_zero_iff.mpr h
  cases hsign : isNegative x with
  | false => exact .inl (eq_of_rank hsign hrank)
  | true => exact .inr (eq_of_rank hsign hrank)

theorem isFinite_or_isInf (h : x.isNaN = false) : x.isFinite = true ∨ x.isInf = true := by
  revert h
  unfold Float.isFinite Float.Model.isFinite Float.isInf Float.Model.isInf Float.isNaN
    Float.Model.isNaN
  cases x.toModel.unpack <;>
    simp [UnpackedFloat.isFinite, UnpackedFloat.isInf, UnpackedFloat.isNaN]

/-- There are two infinite doubles. -/
theorem eq_inf_or_neg_inf (h : x.isInf = true) : x = Float.inf ∨ x = -Float.inf := by
  have heq {y : Float} (hunpack : x.toModel.unpack = y.toModel.unpack) : x = y := by
    have hbits := (unpack_inj_of_valid x.toModel.valid y.toModel.valid).mp hunpack
    exact Float.toBits_inj.mp (UInt64.toBitVec_inj.mp hbits)
  revert h
  unfold Float.isInf Float.Model.isInf
  cases hx : x.toModel.unpack with
  | infinity sign =>
    intro _
    cases sign with
    | positive => exact .inl (heq hx)
    | negative => exact .inr (heq hx)
  | notANumber | zero | finite => exact nofun

/-! ## Texts -/

/-- The characters of numbers as they are shown. -/
def isShown (c : Char) : Bool := isNumeral c || c.isAlpha

/-- The text is that of a finite number, or the name of an infinite one. -/
theorem display_cases (h : x.isNaN = false) :
    x.isFinite = true ∨ x = Float.inf ∧ Format.display.text x = "Infinity" ∨
      x = -Float.inf ∧ Format.display.text x = "-Infinity" := by
  rcases isFinite_or_isInf h with hfinite | hinf
  · exact .inl hfinite
  · rcases eq_inf_or_neg_inf hinf with rfl | rfl
    · exact .inr (.inl ⟨rfl, by decide⟩)
    · exact .inr (.inr ⟨rfl, by decide⟩)

theorem display_chars (h : x.isNaN = false) :
    ∀ c ∈ (Format.display.text x).toList, isShown c = true := by
  rcases display_cases h with hfinite | ⟨-, htext⟩ | ⟨-, htext⟩
  · intro c hc
    rw [isShown, Format.isNumeral_text _ hfinite c hc, Bool.true_or]
  · rw [htext]
    simp [isShown]
  · rw [htext]
    simp [isShown, isNumeral]

/-- The first character tells that a number is shown. -/
theorem display_exists_first (h : x.isNaN = false) :
    ∃ first rest, (Format.display.text x).toList = first :: rest ∧
      (isNumeral first = true ∨ first = 'I') := by
  rcases display_cases h with hfinite | ⟨-, htext⟩ | ⟨-, htext⟩
  · obtain ⟨first, rest, hfirst⟩ := List.exists_cons_of_ne_nil (Format.text_ne_nil .display hfinite)
    refine ⟨first, rest, hfirst, .inl (Format.isNumeral_text .display hfinite first ?_)⟩
    rw [hfirst]
    exact .head _
  · exact ⟨'I', _, by rw [htext]; rfl, .inr rfl⟩
  · exact ⟨'-', _, by rw [htext]; rfl, .inl (by decide)⟩

/-- No finite number is shown by the name of an infinite one. -/
theorem display_ne_of_finite (h : x.isFinite = true) :
    Format.display.text x ≠ "Infinity" ∧ Format.display.text x ≠ "-Infinity" := by
  have hnumeral := Format.isNumeral_text .display h
  constructor
  all_goals
    intro htext
    have hy := hnumeral 'y' (by simp [htext])
    simp [isNumeral] at hy

/-! ## Equal numbers -/

theorem beq_of_display_of_finite (hx : x.isFinite = true) (hy : y.isFinite = true)
    (h : Format.display.text x = Format.display.text y) : (x == y) = true := by
  have hnan {z : Float} (hz : z.isFinite = true) : z ≠ Float.nan := by
    rintro rfl
    cases hz
  obtain ⟨hsigned, hrank⟩ := Format.text_inj hx hy h
  refine Float.beq_iff_ne_nan_and_eq.mpr ⟨hnan hx, hnan hy, ?_⟩
  by_cases hzero : significand x = 0
  · have hzero' : significand y = 0 :=
      rank_eq_zero_iff.mp (hrank.symm.trans (rank_eq_zero_iff.mpr hzero))
    rcases eq_zero_of_significand hzero with rfl | rfl <;>
      rcases eq_zero_of_significand hzero' with rfl | rfl <;> simp
  · have hpos : significand y ≠ 0 := fun hzero' =>
      hzero (rank_eq_zero_iff.mp (hrank.trans (rank_eq_zero_iff.mpr hzero')))
    have hsign {z : Float} (hz : significand z ≠ 0) :
        Format.display.signed z = isNegative z := by
      simp [Format.signed, hz]
    rw [hsign hzero, hsign hpos] at hsigned
    exact .inl (eq_of_rank hsigned hrank)

/-- **Numbers as text.** Doubles that are no NaN are equal exactly if they are shown alike. -/
theorem beq_iff_display (hx : x.isNaN = false) (hy : y.isNaN = false) :
    (x == y) = true ↔ Format.display.text x = Format.display.text y := by
  constructor
  · intro h
    obtain ⟨-, -, rfl | ⟨rfl, rfl⟩ | ⟨rfl, rfl⟩⟩ := Float.beq_iff_ne_nan_and_eq.mp h
    · rfl
    · decide
    · decide
  · intro h
    rcases display_cases hx with hx | ⟨rfl, htext⟩ | ⟨rfl, htext⟩ <;>
      rcases display_cases hy with hy | ⟨rfl, htext'⟩ | ⟨rfl, htext'⟩
    · exact beq_of_display_of_finite hx hy h
    · exact absurd (h.trans htext') (display_ne_of_finite hx).1
    · exact absurd (h.trans htext') (display_ne_of_finite hx).2
    · exact absurd (h.symm.trans htext) (display_ne_of_finite hy).1
    · decide
    · rw [htext, htext'] at h
      exact absurd h (by decide)
    · exact absurd (h.symm.trans htext) (display_ne_of_finite hy).2
    · rw [htext, htext'] at h
      exact absurd h (by decide)
    · decide

end SnapLisp.Number
