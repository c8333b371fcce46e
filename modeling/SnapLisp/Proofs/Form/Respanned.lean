import Mathlib.Data.List.Forall2
import SnapLisp.Proofs.Form.Canonical

/-!
# Forms that differ in their spans

`Form.Respanned R` relates two forms that are alike but for their spans, which stand in the
relation `R`. Forms that are read from texts are of this kind as soon as they are the same tree:
all their numbers are natural numbers, so equal ones are the same double
(`Form.respanned_of_same`).
-/

namespace SnapLisp

/-- The same form, but for its spans, which stand in a relation. -/
inductive Form.Respanned (R : Span → Span → Prop) : Form → Form → Prop where
  | symbol (name : String) {s s' : Span} :
      R s s' → Respanned R (.symbol name s) (.symbol name s')
  | number (value : Float) {s s' : Span} :
      R s s' → Respanned R (.number value s) (.number value s')
  | list {items items' : List Form} {s s' : Span} :
      List.Forall₂ (Respanned R) items items' → R s s' →
        Respanned R (.list items s) (.list items' s')

variable {R : Span → Span → Prop}

namespace Form

theorem Respanned.span {f f' : Form} (h : Respanned R f f') : R f.span f'.span := by
  cases h <;> assumption

theorem respanned_refl (hR : ∀ s, R s s) (f : Form) : Respanned R f f := by
  induction f using induction with
  | symbol name span => exact .symbol name (hR span)
  | number value span => exact .number value (hR span)
  | list items span ih => exact .list (List.forall₂_same.mpr ih) (hR span)

/-! ## The same tree -/

theorem respannedAll_of_sameAll {fs gs : List Form} (h : sameAll fs gs = true)
    (hforms : ∀ f ∈ fs, ∀ g ∈ gs, same f g = true → Respanned R f g) :
    List.Forall₂ (Respanned R) fs gs := by
  induction fs generalizing gs with
  | nil =>
    cases gs with
    | nil => exact .nil
    | cons g gs => cases h
  | cons f fs ih =>
    cases gs with
    | nil => cases h
    | cons g gs =>
      rw [sameAll, Bool.and_eq_true] at h
      exact .cons (hforms f (.head _) g (.head _) h.1)
        (ih h.2 fun f' hf' g' hg' => hforms f' (.tail _ hf') g' (.tail _ hg'))

/-- Two canonical forms that are the same tree have the same numbers bit for bit. -/
theorem respanned_of_same (hR : ∀ s s', R s s') (f : Form) :
    f.Canonical → ∀ g : Form, g.Canonical → same f g = true → Respanned R f g := by
  induction f using induction with
  | symbol name span =>
    intro _ g _ hsame
    cases g with
    | symbol name' span' =>
      obtain rfl : name = name' := by simpa [same] using hsame
      exact .symbol name (hR _ _)
    | number | list => cases hsame
  | number value span =>
    intro hf g hg hsame
    cases g with
    | number value' span' =>
      obtain rfl : value = value' :=
        (canonical_number.mp hf).eq_of_beq (canonical_number.mp hg) hsame
      exact .number value (hR _ _)
    | symbol | list => cases hsame
  | list items span ih =>
    intro hf g hg hsame
    cases g with
    | list items' span' =>
      rw [canonical_list] at hf hg
      refine .list (respannedAll_of_sameAll hsame fun f hf' g hg' => ?_) (hR _ _)
      exact ih f hf' (hf f hf') g (hg g hg')
    | symbol | number => cases hsame

end Form

/-- Two scripts read from texts that are the same trees differ in their spans only. -/
theorem Script.respanned_of_same (hR : ∀ s s', R s s') {a b : Script} (ha : a.Canonical)
    (hb : b.Canonical) (h : a.same b = true) :
    List.Forall₂ (Form.Respanned R) a.forms b.forms :=
  Form.respannedAll_of_sameAll h fun f hf g hg =>
    f.respanned_of_same hR (ha f hf) g (hb g hg)

end SnapLisp
