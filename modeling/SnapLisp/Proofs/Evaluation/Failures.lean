import SnapLisp.Proofs.Evaluation.Application

/-!
# Who tells of an error

Only `Action.reporting` tells of an error. Evaluation does not (`eval_quiet`), so a run tells of the
error that it ends with and of no other, whether the text is no script or a form of it fails
(`failures_run`).
-/

namespace SnapLisp

/-- The error that an event tells of. -/
def Event.failure? : Event → Option ScriptError
  | .log _ => none
  | .fail e => some e

/-- The error of the script that an action ended with. -/
def Outcome.failure? {α : Type} (o : Outcome α) : Option ScriptError :=
  match o.result with
  | .error (.error e) => some e
  | _ => none

theorem Outcome.failure?_eq_some_iff {α : Type} {o : Outcome α} {e : ScriptError} :
    o.failure? = some e ↔ o.result = .error (.error e) := by
  obtain ⟨result, env, events⟩ := o
  rcases result with (e' | _ | _) | _ <;> simp [failure?]

/-- Tells of no error, whatever it ends with. -/
def Action.Quiet {α : Type} (act : Action α) : Prop :=
  ∀ env, (act env).events.filterMap Event.failure? = []

namespace Action.Quiet

variable {α β : Type} {first : Action α} {next : α → Action β}

theorem pure (a : α) : Quiet (pure a : Action α) := fun _ => rfl

theorem halt (h : Halt) : Quiet (halt h : Action α) := fun _ => rfl

theorem ofExcept (e : Except ScriptError α) : Quiet (ofExcept e) := by
  cases e with
  | error e => exact halt (.error e)
  | ok a => exact pure a

theorem getEnv : Quiet getEnv := fun _ => rfl

theorem setEnv (env : Env) : Quiet (setEnv env) := fun _ => rfl

theorem log (messages : List String) : Quiet (emit (.log messages)) := fun _ => rfl

theorem within (inner : Env) {act : Action α} (h : Quiet act) : Quiet (within inner act) :=
  fun _ => h inner

theorem bind (hfirst : Quiet first) (hnext : ∀ a, Quiet (next a)) : Quiet (first >>= next) := by
  intro env
  have hevents := hfirst env
  rcases h : first env with ⟨stop | a, env', events⟩ <;> rw [h] at hevents
  · rw [bind_of_error h]
    exact hevents
  · rw [bind_of_ok h, List.filterMap_append, hevents, hnext a env']
    rfl

variable {act : α → Action β}

theorem all (h : ∀ a, Quiet (act a)) (as : List α) : Quiet (all act as) := by
  induction as with
  | nil => exact pure []
  | cons a rest ih => exact bind (h a) fun _ => bind ih fun _ => pure _

theorem last (h : ∀ a, Quiet (act a)) (value : β) (as : List α) : Quiet (last act value as) := by
  induction as generalizing value with
  | nil => exact pure value
  | cons a rest ih => exact bind (h a) ih

end Action.Quiet

theorem Conclusion.run_quiet {evaluate : Evaluator} (h : ∀ form, (evaluate form).Quiet)
    (c : Conclusion) (values : List Value) : (c.run evaluate values).Quiet := by
  cases c with
  | call params body scope => exact .within _ (.last h _ _)
  | list => exact .pure _
  | print => exact .bind (.log _) fun _ => .pure _
  | arithmetic compute => exact .bind (.ofExcept _) fun _ => .pure _
  | close params body => exact .bind .getEnv fun _ => .pure _
  | declare name =>
    exact .bind .getEnv fun _ => .bind (.ofExcept _) fun _ => .bind (.setEnv _) fun _ => .pure _

/-- Evaluation itself tells of no error. -/
theorem eval_quiet (fuel : Nat) (form : Form) : (eval fuel form).Quiet := by
  induction fuel generalizing form with
  | zero => rw [eval_zero]; exact .halt _
  | succ fuel ih =>
    match form with
    | .number x _ => exact .pure _
    | .symbol name span => exact .bind .getEnv fun _ => .ofExcept _
    | .list [] span => exact .halt _
    | .list (head :: args) span =>
      rw [eval_plan]
      exact .bind (ih head) fun f => .bind (.ofExcept _) fun p =>
        .bind (.all ih _) fun values => p.conclusion.run_quiet ih values

theorem Action.Quiet.failures_reporting {α : Type} {act : Action α} (h : Quiet act) (env : Env) :
    (reporting act env).events.filterMap Event.failure? =
      (reporting act env).failure?.toList := by
  have hevents := h env
  rcases hact : act env with ⟨stop | a, env', events⟩ <;> rw [hact] at hevents
  · cases stop with
    | error e =>
      simp only [reporting, hact, List.filterMap_append, hevents]
      rfl
    | crash | outOfFuel => simp only [reporting, hact, hevents, Outcome.failure?, Option.toList]
  · simp only [reporting, hact, hevents, Outcome.failure?, Option.toList]

/-- A run tells of the error that it ends with, once, and of no other. -/
theorem failures_run (fuel : Nat) (source : String) (env : Env) :
    (run fuel source env).events.filterMap Event.failure? =
      (run fuel source env).failure?.toList := by
  unfold run
  cases Script.ofString source with
  | ok script => exact (Action.Quiet.last (eval_quiet fuel) _ _).failures_reporting env
  | error e => rfl

end SnapLisp
