import SnapLisp.Proofs.Evaluation.Application

/-!
# Enough fuel

Fuel bounds how deep evaluations nest. It decides nothing else: more fuel leaves every outcome as
it is that did not run out (`eval_extends`). So an evaluation has at most one outcome that counts
(`EndsWith.unique`), whatever the fuel, and either `Finishes` or goes on forever.
-/

namespace SnapLisp

/-- Did not run out of fuel. -/
def Outcome.Finished {α : Type} (o : Outcome α) : Prop := o.result ≠ .error .outOfFuel

namespace Outcome

variable {α : Type} {env : Env} {events : List Event}

theorem finished_ok (a : α) : (⟨.ok a, env, events⟩ : Outcome α).Finished := nofun

/-- Whether an outcome without a value counts is seen from why there is none. -/
theorem finished_error_iff {halt : Halt} :
    (⟨.error halt, env, events⟩ : Outcome α).Finished ↔ halt ≠ .outOfFuel :=
  not_congr (iff_of_eq (Except.error.injEq ..))

/-- An action that fails because a part of it does counts if the part does. -/
theorem finished_of_error {β : Type} {halt : Halt} {env' : Env} {events' : List Event}
    (h : (⟨.error halt, env, events⟩ : Outcome α).Finished) :
    (⟨.error halt, env', events'⟩ : Outcome β).Finished :=
  finished_error_iff.mpr (finished_error_iff.mp h)

end Outcome

/-- `more` has the outcome of `act` wherever that did not run out of fuel. -/
def Action.Extends {α : Type} (act more : Action α) : Prop :=
  ∀ env, (act env).Finished → more env = act env

namespace Action.Extends

variable {α β : Type}

theorem refl (act : Action α) : Extends act act := fun _ _ => rfl

theorem outOfFuel (more : Action α) : Extends (halt .outOfFuel) more := fun _ h => absurd rfl h

theorem within (inner : Env) {act more : Action α} (h : Extends act more) :
    Extends (within inner act) (within inner more) := by
  intro env hfin
  rw [within_apply, within_apply, h inner hfin]

theorem bind {first first' : Action α} {next next' : α → Action β} (hfirst : Extends first first')
    (hnext : ∀ a, Extends (next a) (next' a)) : Extends (first >>= next) (first' >>= next') := by
  intro env hfin
  rcases h : first env with ⟨halt | a, env', events⟩
  · rw [bind_of_error h] at hfin ⊢
    refine bind_of_error ?_ next'
    rw [← h]
    exact hfirst env (by rw [h]; exact Outcome.finished_of_error hfin)
  · have h' : first' env = ⟨.ok a, env', events⟩ := by
      rw [← h]
      exact hfirst env (by rw [h]; exact Outcome.finished_ok a)
    rw [bind_of_ok h] at hfin ⊢
    rw [bind_of_ok h', hnext a env' hfin]

variable {act act' : α → Action β}

theorem all (h : ∀ a, Extends (act a) (act' a)) (as : List α) :
    Extends (all act as) (all act' as) := by
  induction as with
  | nil => exact refl _
  | cons a rest ih => exact bind (h a) fun _ => bind ih fun _ => refl _

theorem last (h : ∀ a, Extends (act a) (act' a)) (value : β) (as : List α) :
    Extends (last act value as) (last act' value as) := by
  induction as generalizing value with
  | nil => exact refl _
  | cons a rest ih => exact bind (h a) ih

theorem reporting {act more : Action α} (h : Extends act more) :
    Extends (reporting act) (reporting more) := by
  intro env hfin
  have hact : (act env).Finished := by
    intro hout
    apply hfin
    simp [Action.reporting, hout]
  simp [Action.reporting, h env hact]

end Action.Extends

variable {evaluate evaluate' : Evaluator}

theorem Conclusion.run_extends (h : ∀ form, (evaluate form).Extends (evaluate' form))
    (c : Conclusion) (values : List Value) :
    (c.run evaluate values).Extends (c.run evaluate' values) := by
  cases c with
  | call params body scope => exact .within _ (.last h _ _)
  | list | print | arithmetic | declare | close => exact .refl _

theorem Plan.run_extends (h : ∀ form, (evaluate form).Extends (evaluate' form)) (p : Plan) :
    (p.run evaluate).Extends (p.run evaluate') :=
  .bind (.all h _) fun _ => p.conclusion.run_extends h _

/-- More fuel changes no outcome that was reached. -/
theorem eval_extends {fuel more : Nat} (h : fuel ≤ more) (form : Form) :
    (eval fuel form).Extends (eval more form) := by
  induction fuel generalizing more form with
  | zero => rw [eval_zero]; exact .outOfFuel _
  | succ fuel ih =>
    obtain ⟨more, rfl⟩ : ∃ m, more = m + 1 := ⟨more - 1, by omega⟩
    match form with
    | .number x _ | .symbol name span | .list [] span => exact .refl _
    | .list (head :: args) span =>
      have hle : fuel ≤ more := by omega
      rw [eval_plan, eval_plan]
      exact .bind (ih hle head) fun f => .bind (.refl _) fun p => p.run_extends (ih hle)

/-! ## Actions that need fuel -/

section Family

variable {α : Type}

/-- Some amount of fuel is enough. -/
def Finishes (act : Nat → Action α) (env : Env) : Prop := ∃ fuel, (act fuel env).Finished

/-- The outcome that any sufficient amount of fuel leads to. -/
def EndsWith (act : Nat → Action α) (env : Env) (o : Outcome α) : Prop :=
  o.Finished ∧ ∃ fuel, act fuel env = o

/-- With enough fuel, the action has the value `a` and leaves `env'`. -/
def Yields (act : Nat → Action α) (env : Env) (a : α) (env' : Env) : Prop :=
  ∃ fuel events, act fuel env = ⟨.ok a, env', events⟩

/-- Fuel does not matter beyond being enough. -/
def FuelExtends (act : Nat → Action α) : Prop :=
  ∀ fuel more, fuel ≤ more → (act fuel).Extends (act more)

namespace FuelExtends

variable {β : Type} {first : Nat → Action α} {next : Nat → α → Action β}

theorem bind (hfirst : FuelExtends first) (hnext : ∀ a, FuelExtends (next · a)) :
    FuelExtends fun fuel => first fuel >>= next fuel :=
  fun _ _ hle => .bind (hfirst _ _ hle) fun a => hnext a _ _ hle

theorem all (h : ∀ a, FuelExtends (next · a)) (as : List α) :
    FuelExtends fun fuel => Action.all (next fuel) as :=
  fun _ _ hle => .all (fun a => h a _ _ hle) as

end FuelExtends

theorem EndsWith.unique {act : Nat → Action α} (hact : FuelExtends act) {env : Env}
    {o o' : Outcome α} (h : EndsWith act env o) (h' : EndsWith act env o') : o = o' := by
  obtain ⟨hfin, fuel, rfl⟩ := h
  obtain ⟨hfin', fuel', rfl⟩ := h'
  rcases Nat.le_total fuel fuel' with hle | hle
  · exact (hact _ _ hle env hfin).symm
  · exact hact _ _ hle env hfin'

theorem finishes_iff_endsWith {act : Nat → Action α} {env : Env} :
    Finishes act env ↔ ∃ o, EndsWith act env o :=
  ⟨fun ⟨fuel, h⟩ => ⟨_, h, fuel, rfl⟩, fun ⟨_, h, fuel, heq⟩ => ⟨fuel, heq ▸ h⟩⟩

theorem fuelExtends_eval (form : Form) : FuelExtends (eval · form) :=
  fun _ _ h => eval_extends h form

/-- Where nothing crashes, what ends has a value or an error of the script. -/
theorem EndsWith.result_cases {act : Nat → Action α}
    (hact : ∀ fuel env c, (act fuel env).result ≠ .error (.crash c)) {env : Env} {o : Outcome α}
    (h : EndsWith act env o) : (∃ a, o.result = .ok a) ∨ ∃ e, o.result = .error (.error e) := by
  obtain ⟨hfin, fuel, rfl⟩ := h
  unfold Outcome.Finished at hfin
  rcases hresult : (act fuel env).result with halt | a
  · cases halt with
    | error e => exact .inr ⟨e, rfl⟩
    | crash c => exact absurd hresult (hact fuel env c)
    | outOfFuel => exact absurd hresult hfin
  · exact .inl ⟨a, rfl⟩

theorem eval_result_cases {form : Form} {env : Env} {o : Outcome Value}
    (h : EndsWith (eval · form) env o) :
    (∃ v, o.result = .ok v) ∨ ∃ e, o.result = .error (.error e) :=
  h.result_cases fun fuel => (eval_safe fuel form).not_crash

/-- Runs forms in order and tells the outside of the error that ends the run. The value is the
result if there are no forms. -/
def runForms (value : Value) (forms : List Form) (fuel : Nat) : Action Value :=
  Action.reporting (Action.last (eval fuel) value forms)

theorem run_of_ok {source : String} {script : Script} (h : Script.ofString source = .ok script) :
    (run · source) = runForms .nil script.forms := by
  funext fuel
  simp only [run, h, interpret, runForms]

theorem runForms_result_cases {value : Value} {forms : List Form} {env : Env} {o : Outcome Value}
    (h : EndsWith (runForms value forms) env o) :
    (∃ v, o.result = .ok v) ∨ ∃ e, o.result = .error (.error e) := by
  exact h.result_cases fun fuel =>
    (Action.Safe.reporting (.last (eval_safe fuel) value forms)).not_crash

theorem fuelExtends_runForms (value : Value) (forms : List Form) :
    FuelExtends (runForms value forms) :=
  fun _ _ h => .reporting (.last (eval_extends h) _ _)

theorem fuelExtends_interpret (script : Script) : FuelExtends (interpret · script) :=
  fuelExtends_runForms .nil script.forms

theorem fuelExtends_run (source : String) : FuelExtends (run · source) := by
  intro fuel more h
  simp only [run]
  split
  · exact fuelExtends_interpret _ _ _ h
  · exact .refl _

end Family

end SnapLisp
