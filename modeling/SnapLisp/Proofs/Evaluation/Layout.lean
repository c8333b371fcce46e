import SnapLisp.Proofs.Evaluation.Respanned
import SnapLisp.Proofs.Form.RoundTrip

/-!
# Layout does not matter

Two texts that are read as the same trees differ in blanks and line breaks, so in spans, and in
nothing else that a run could notice: `run_ignores_layout`. In particular a script may be replaced
by its canonical text.
-/

namespace SnapLisp

/-- Any span may stand in the place of any other. -/
def Span.Anywhere : Set (Span → Span → Prop) := {fun _ _ => True}

/-- Running the two texts cannot be told apart but for spans: both runs end or neither does, and
their ends are alike. -/
structure RunsUpToSpans (source source' : String) (env env' : Env) : Prop where
  finishes : Finishes (run · source) env ↔ Finishes (run · source') env'
  ends : ∀ {o o'}, EndsWith (run · source) env o → EndsWith (run · source') env' o' →
    o.Respanned Span.Anywhere o'

/-- Scripts with the same trees run alike. -/
theorem runsUpToSpans_of_same {source source' : String} {s s' : Script}
    (hs : Script.ofString source = .ok s) (hs' : Script.ofString source' = .ok s')
    (h : s.same s' = true) {env env' : Env} (henv : Env.Respanned Span.Anywhere env env') :
    RunsUpToSpans source source' env env' := by
  have hforms : List.Forall₂ (Form.Respanned fun _ _ => True) s.forms s'.forms :=
    Script.respanned_of_same (fun _ _ => trivial) (Script.canonical_of_ofBytes hs)
      (Script.canonical_of_ofBytes hs') h
  have hways := Set.mem_singleton (fun _ _ : Span => True)
  have hrefl : Value.nil.Respanned Span.Anywhere .nil := .nil
  constructor
  · rw [run_of_ok hs, run_of_ok hs']
    exact finishes_runForms_iff hways hforms hrefl henv
  · intro o o' ho ho'
    rw [run_of_ok hs] at ho
    rw [run_of_ok hs'] at ho'
    exact ho.runForms_respanned hways hforms hrefl henv ho'

/-- The canonical text of a script that was read has the trees of the script. -/
theorem Script.exists_same_of_text {source : String} {s : Script} (h : ofString source = .ok s) :
    ∃ s', ofString s.text = .ok s' ∧ s.same s' = true := by
  obtain ⟨s', hs', hbare⟩ := ofString_text (canonical_of_ofBytes h)
  have hcanonical : s'.Canonical := canonical_of_ofBytes hs'
  exact ⟨s', hs', Form.sameAll_of_bareAll_eq hbare.symm fun f hf => f.same_of_bare_eq
    (hcanonical f hf)⟩

/-- **Layout.** From environments that are equal up to spans, two texts with the same trees run
alike: both go on forever, or they print the same strings, come to values or to errors that differ
in spans only, and leave environments that do. -/
theorem run_ignores_layout :
    (∀ env, Env.Respanned Span.Anywhere env env) ∧
      (∀ source source' s s', Script.ofString source = .ok s → Script.ofString source' = .ok s' →
        s.same s' = true → ∀ env env', Env.Respanned Span.Anywhere env env' →
          RunsUpToSpans source source' env env') ∧
      ∀ source s, Script.ofString source = .ok s →
        ∀ env, RunsUpToSpans source s.text env env := by
  have hrefl (env : Env) : Env.Respanned Span.Anywhere env env :=
    Env.respanned_refl (Set.mem_singleton _) (fun _ => trivial) env
  refine ⟨hrefl, fun _ _ _ _ hs hs' h _ _ => runsUpToSpans_of_same hs hs' h, ?_⟩
  intro source s hs env
  obtain ⟨s', hs', hsame⟩ := Script.exists_same_of_text hs
  exact runsUpToSpans_of_same hs hs' hsame (hrefl env)

/-- Where a closure and its call stand does not matter. -/
theorem run_ignores_layout_closure :
    let source := "(let f (fun x x)) (f f)"
    let source' := "(let f\n  (fun x x))\n(f f)"
    Finishes (run · source) Env.standard ∧
      RunsUpToSpans source source' Env.standard Env.standard := by
  intro source source'
  have hread : (match Script.ofString source, Script.ofString source' with
      | .ok s, .ok s' => s.same s'
      | _, _ => false) = true := by decide +kernel
  have hvalue : (run 4 source Env.standard).result.isOk = true := by decide +kernel
  refine ⟨⟨4, fun hfuel => by rw [hfuel] at hvalue; cases hvalue⟩, ?_⟩
  revert hread
  rcases hs : Script.ofString source with e | s
  · nofun
  rcases hs' : Script.ofString source' with e | s'
  · nofun
  intro hsame
  exact run_ignores_layout.2.1 source source' s s' hs hs' hsame _ _ (run_ignores_layout.1 _)

end SnapLisp
