import SnapLisp.Form.Json
import SnapLisp.Proofs.Form.Leaves
import SnapLisp.Proofs.Json.Unambiguous

/-!
# The full document of a script

The full document holds every name, every finite number and both ends of every span
(`Form.json_inj`), and its text is read in one way only. A script whose numbers are finite is thus
recovered from the text of its document (`Script.json_text_recovers`).
-/

namespace SnapLisp

/-! ## Places and numbers -/

theorem Position.json_inj {p q : Position} (h : p.json = q.json) : p = q := by
  obtain ⟨offset, line, column⟩ := p
  obtain ⟨offset', line', column'⟩ := q
  simp only [json, Json.object.injEq, List.cons.injEq, Prod.mk.injEq, Json.natural.injEq,
    true_and, and_true] at h
  obtain ⟨rfl, rfl, rfl⟩ := h
  rfl

theorem Span.eq_of_json {a b : Span} (hstart : a.start.json = b.start.json)
    (hstop : a.stop.json = b.stop.json) : a = b := by
  cases a
  cases b
  rw [Span.mk.injEq]
  exact ⟨Position.json_inj hstart, Position.json_inj hstop⟩

theorem Position.wellFormed_json (p : Position) : p.json.WellFormed :=
  .object (by simp [Json.WellFormed.natural])

namespace Json

theorem ofFloat_inj {x y : Float} (hx : x.isFinite = true) (hy : y.isFinite = true)
    (h : ofFloat x = ofFloat y) : x = y := by
  rw [ofFloat, ofFloat, if_pos hx, if_pos hy] at h
  cases h
  rfl

theorem wellFormed_ofFloat (x : Float) : (ofFloat x).WellFormed := by
  unfold ofFloat
  split
  · rename_i hfinite
    exact .number hfinite
  · exact .null

end Json

/-! ## Trees -/

namespace Form

theorem wellFormed_jsonAll {forms : List Form} (h : ∀ f ∈ forms, f.json.WellFormed) :
    (Json.array (jsonAll forms)).WellFormed := by
  refine .array ?_
  induction forms with
  | nil => exact fun j hj => nomatch hj
  | cons f fs ih =>
    obtain ⟨hfirst, hothers⟩ := List.forall_mem_cons.mp h
    exact List.forall_mem_cons.mpr ⟨hfirst, ih hothers⟩

/-- Whatever the numbers of a form are, its document holds finite ones only. -/
theorem wellFormed_json (f : Form) : f.json.WellFormed := by
  induction f using Form.induction with
  | symbol name span => exact .object (by simp [Position.wellFormed_json, Json.WellFormed.string])
  | number value span =>
    exact .object (by
      simp [Position.wellFormed_json, Json.WellFormed.string, Json.wellFormed_ofFloat])
  | list items span ih =>
    exact .object (by
      simp [Position.wellFormed_json, Json.WellFormed.string, wellFormed_jsonAll ih])

theorem jsonAll_inj {fs gs : List Form} (h : ∀ f ∈ fs, ∀ g ∈ gs, f.json = g.json → f = g)
    (heq : jsonAll fs = jsonAll gs) : fs = gs := by
  induction fs generalizing gs with
  | nil =>
    cases gs with
    | nil => rfl
    | cons g gs => cases heq
  | cons f fs ih =>
    cases gs with
    | nil => cases heq
    | cons g gs =>
      obtain ⟨hfirst, hothers⟩ := List.cons.inj heq
      rw [h f (.head _) g (.head _) hfirst,
        ih (fun f hf g hg => h f (.tail _ hf) g (.tail _ hg)) hothers]

/-- Two forms without infinities and NaNs have the same document only if they are the same. -/
theorem json_inj {f g : Form} (hf : ∀ x ∈ f.numbers, x.isFinite = true)
    (hg : ∀ x ∈ g.numbers, x.isFinite = true) (h : f.json = g.json) : f = g := by
  induction f using Form.induction generalizing g with
  | symbol name span =>
    cases g with
    | symbol name' span' =>
      simp only [json, Json.object.injEq, List.cons.injEq, Prod.mk.injEq, Json.string.injEq,
        true_and, and_true] at h
      obtain ⟨hstop, hstart, rfl⟩ := h
      rw [Span.eq_of_json hstart hstop]
    | number => simp [json] at h
    | list => simp [json] at h
  | number value span =>
    cases g with
    | symbol => simp [json] at h
    | number value' span' =>
      simp only [json, Json.object.injEq, List.cons.injEq, Prod.mk.injEq, true_and,
        and_true] at h
      obtain ⟨hstop, hvalue, hstart⟩ := h
      rw [Span.eq_of_json hstart hstop,
        Json.ofFloat_inj (hf value (.head _)) (hg value' (.head _)) hvalue]
    | list => simp [json] at h
  | list items span ih =>
    cases g with
    | symbol => simp [json] at h
    | number => simp [json] at h
    | list items' span' =>
      simp only [json, Json.object.injEq, List.cons.injEq, Prod.mk.injEq, Json.array.injEq,
        true_and, and_true] at h
      obtain ⟨hstop, hitems, hstart⟩ := h
      have hall := jsonAll_inj (fun item hitem item' hitem' => ih item hitem
        (fun x hx => hf x (mem_numbersAll.mpr ⟨item, hitem, hx⟩))
        fun x hx => hg x (mem_numbersAll.mpr ⟨item', hitem', hx⟩)) hitems
      rw [Span.eq_of_json hstart hstop, hall]

end Form

/-! ## Scripts -/

namespace Script

/-- All numbers in the script are finite. -/
def Finite (s : Script) : Prop := ∀ x ∈ Form.numbersAll s.forms, x.isFinite = true

theorem wellFormed_json (s : Script) : (s.json false).WellFormed := by
  have hforms : (Json.array (Form.jsonAll s.forms)).WellFormed :=
    Form.wellFormed_jsonAll fun f _ => f.wellFormed_json
  rw [json, if_neg (by decide)]
  exact .object (by simp [Position.wellFormed_json, Json.WellFormed.string, hforms])

theorem json_false_inj {s t : Script} (hs : s.Finite) (ht : t.Finite)
    (h : s.json false = t.json false) : s = t := by
  obtain ⟨forms, span⟩ := s
  obtain ⟨forms', span'⟩ := t
  simp only [json, Bool.false_eq_true, if_false, Json.object.injEq, List.cons.injEq,
    Prod.mk.injEq, Json.array.injEq, true_and, and_true] at h
  obtain ⟨hstop, hforms, hstart⟩ := h
  have hall := Form.jsonAll_inj (fun f hf g hg => Form.json_inj
    (fun x hx => hs x (Form.mem_numbersAll.mpr ⟨f, hf, hx⟩))
    fun x hx => ht x (Form.mem_numbersAll.mpr ⟨g, hg, hx⟩)) hforms
  rw [Script.mk.injEq]
  exact ⟨hall, Span.eq_of_json hstart hstop⟩

theorem eq_of_json_text {s t : Script} (hs : s.Finite) (ht : t.Finite)
    (h : (s.json false).text = (t.json false).text) : s = t :=
  json_false_inj hs ht (s.wellFormed_json.text_inj t.wellFormed_json h)

open Classical in
/-- The script with finite numbers whose full document has the text, if there is one. -/
noncomputable def ofJsonText? (text : String) : Option Script :=
  if h : ∃ s : Script, s.Finite ∧ (s.json false).text = text then some h.choose else none

/-- **Nothing is lost.** Scripts with finite numbers, from the parser or built by hand, are the
same, spans and signs of zeros included, if their full documents have the same text; so a script is
recovered from that text. -/
theorem json_text_recovers :
    (∀ s t : Script, s.Finite → t.Finite → (s.json false).text = (t.json false).text → s = t) ∧
      ∃ decode : String → Option Script,
        ∀ s : Script, s.Finite → decode (s.json false).text = some s := by
  refine ⟨fun s t hs ht h => eq_of_json_text hs ht h, ofJsonText?, fun s hs => ?_⟩
  have hex : ∃ t : Script, t.Finite ∧ (t.json false).text = (s.json false).text := ⟨s, hs, rfl⟩
  rw [ofJsonText?, dif_pos hex, eq_of_json_text hex.choose_spec.1 hs hex.choose_spec.2]

/-- One decoder tells the two zeros apart, which compare as equal, in a list with a symbol that
holds a quote and a line feed. -/
theorem json_text_recovers_zeros :
    let script (zero : Float) : Script := ⟨[.list [.number zero (.point .first),
      .symbol "\"\n" (.point .first)] (.point .first)], .point .first⟩
    ((0 : Float) == -0) = true ∧ (0 : Float).toBits ≠ (-0 : Float).toBits ∧
      ∃ decode : String → Option Script,
        decode ((script 0).json false).text = some (script 0) ∧
        decode ((script (-0)).json false).text = some (script (-0)) := by
  obtain ⟨-, decode, hdecode⟩ := json_text_recovers
  refine ⟨by decide, by decide, decode, hdecode _ ?_, hdecode _ ?_⟩
  · simp only [Finite, Form.numbersAll, Form.numbers]
    decide
  · simp only [Finite, Form.numbersAll, Form.numbers]
    decide

end Script

end SnapLisp
