import SnapLisp.Proofs.Evaluation.Failures
import SnapLisp.Proofs.Evaluation.Provenance
import SnapLisp.Proofs.Form.Places

/-!
# What an error points at

An error that ends a run may have been raised in the body of a closure of an earlier run. Its span
is nevertheless that of a form of the right kind in one of the source texts
(`ScriptError.PointsAt`), and only errors that no single form is to blame for have none
(`run_error_pointsAt`).
-/

namespace SnapLisp

/-- The error is about the form of the source text and points at it: its span is that of the form,
and its report names the place where the form starts. The form does start in that place of the text,
and a symbol ends where its name ends. -/
structure ScriptError.PointsAt (source : String) (e : ScriptError) (form : Form) : Prop where
  blames : e.Blames source form
  span : e.span = some form.span
  report : e.report = e.message ++ " at " ++ form.span.start.text
  start : ∃ front, front <+: Bytes.utf8 source ∧ form.span.start = Position.first.advance front
  name : ∀ name span, form = .symbol name span →
    span.bytesOf (Bytes.utf8 source) = Bytes.utf8 name

namespace ScriptError

variable {source : String} {e : ScriptError} {form : Form}

theorem Blames.inSource (h : e.Blames source form) : ∃ level, form.InSource source level := by
  cases h with
  | unbound h | illFormed h | special _ h => exact ⟨_, h⟩
  | notProcedure h => exact ⟨_, h.element (.head _)⟩
  | parameters h | target h _ => exact ⟨_, h.element (.tail _ (.head _))⟩
  | parameter h hitem _ => exact ⟨_, (h.element (.tail _ (.head _))).element hitem⟩

theorem Blames.pointsAt (h : e.Blames source form) : e.PointsAt source form := by
  obtain ⟨level, hform⟩ := h.inSource
  refine ⟨h, ?_, ?_, hform.exists_front, ?_⟩
  · cases h <;> rfl
  · cases h <;> rfl
  · rintro name span rfl
    exact hform.bytesOf_symbol

/-- What cannot be blamed on a form is reported without a place. -/
theorem Unplaced.report_eq {sources : List String} (h : e.Unplaced sources) :
    e.span = none ∧ e.report = e.message := by
  cases h <;> exact ⟨rfl, rfl⟩

end ScriptError

/-- **Blame.** An error that ends the run of a script, whatever was run before, points at a form of
one of the source texts, or it is one of the errors without a span. -/
theorem run_error_pointsAt (runs : List (Nat × String)) (fuel : Nat) (source : String) (s : Script)
    (e : ScriptError) (hs : Script.ofString source = .ok s)
    (h : (run fuel source (Env.standard.afterRuns runs)).result = .error (.error e)) :
    (∃ text ∈ sourcesOf runs ++ [source], ∃ form, e.PointsAt text form) ∨
      e.Unplaced (sourcesOf runs ++ [source]) ∧ e.span = none ∧ e.report = e.message := by
  have henv : (Env.standard.afterRuns runs).Traced (sourcesOf runs ++ [source]) 1 :=
    (Env.standard_traced _).afterRuns (List.subset_append_left _ _)
  have htraces : (run fuel source).Traces (sourcesOf runs ++ [source]) 1 := by
    have hrun := congrFun (run_of_ok hs) fuel
    rw [hrun]
    exact interpret_traces (by simp) hs
  cases htraces.error _ e henv h with
  | blames htext hblames => exact .inl ⟨_, htext, _, hblames.pointsAt⟩
  | unplaced hunplaced => exact .inr ⟨hunplaced, hunplaced.report_eq⟩

/-- A call on one line fails in the body of a closure that another line holds. -/
theorem run_error_pointsAt_earlier :
    let earlier := "(let f (fun x\n  (nope x)))"
    ∃ e, (run 5 "(f 1)" (Env.standard.afterRuns [(5, earlier)])).result = .error (.error e) ∧
      e.span ≠ none ∧ ∃ text ∈ [earlier, "(f 1)"], ∃ form, e.PointsAt text form := by
  intro earlier
  have hread : (Script.ofString "(f 1)").isOk = true := by decide +kernel
  have hfails : (run 5 "(f 1)" (Env.standard.afterRuns [(5, earlier)])).failure?.any
      (·.span.isSome) = true := by decide +kernel
  cases hs : Script.ofString "(f 1)" with
  | error e => rw [hs] at hread; cases hread
  | ok s =>
    obtain ⟨e, he, hsome⟩ := (Option.any_eq_true _ _).mp hfails
    have h := Outcome.failure?_eq_some_iff.mp he
    have hspan : e.span ≠ none := Option.isSome_iff_ne_none.mp hsome
    refine ⟨e, h, hspan, ?_⟩
    rcases run_error_pointsAt [(5, earlier)] 5 "(f 1)" s e hs h with hpoints | ⟨-, hnone, -⟩
    · exact hpoints
    · exact absurd hnone hspan

end SnapLisp
