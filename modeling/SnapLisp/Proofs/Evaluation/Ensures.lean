import SnapLisp.Proofs.Evaluation.Application

/-!
# Actions that keep an invariant

`Action.Ensures` says of an action that it keeps an invariant of the environment however it ends,
and what holds of the value or of the error that it ends with. Each way to build an action has its
rule, as has each way to conclude an application that does not run forms.
-/

namespace SnapLisp

/-- From an environment that satisfies the invariant the action comes to one that does, and the
value or the error that it ends with meets a condition. -/
structure Action.Ensures {α : Type} (inv : Env → Prop) (value : α → Prop)
    (error : ScriptError → Prop) (act : Action α) : Prop where
  env : ∀ env, inv env → inv (act env).env
  value : ∀ env a, inv env → (act env).result = .ok a → value a
  error : ∀ env e, inv env → (act env).result = .error (.error e) → error e

namespace Action.Ensures

variable {α β : Type} {inv : Env → Prop} {error : ScriptError → Prop} {V : α → Prop}
  {W : β → Prop}

theorem pure {a : α} (h : V a) : Ensures inv V error (pure a) where
  env _ henv := henv
  value _ _ _ heq := by cases heq; exact h
  error _ _ _ heq := nomatch heq

theorem fail {e : ScriptError} (h : error e) : Ensures inv V error (fail e) where
  env _ henv := henv
  value _ _ _ heq := nomatch heq
  error _ _ _ heq := by cases heq; exact h

theorem outOfFuel : Ensures inv V error (halt .outOfFuel) where
  env _ henv := henv
  value _ _ _ heq := nomatch heq
  error _ _ _ heq := nomatch heq

theorem ofExcept {x : Except ScriptError α} (hvalue : ∀ a, x = .ok a → V a)
    (herror : ∀ e, x = .error e → error e) : Ensures inv V error (ofExcept x) := by
  cases x with
  | error e => exact fail (herror e rfl)
  | ok a => exact pure (hvalue a rfl)

theorem getEnv : Ensures inv inv error getEnv where
  env _ henv := henv
  value _ _ henv heq := by cases heq; exact henv
  error _ _ _ heq := nomatch heq

theorem emit (e : Event) : Ensures inv (fun _ => True) error (emit e) where
  env _ henv := henv
  value _ _ _ _ := trivial
  error _ _ _ heq := nomatch heq

/-- Inside, another invariant may be kept. -/
theorem within {inv' : Env → Prop} {inner : Env} {act : Action α} (hinner : inv' inner)
    (hact : Ensures inv' V error act) : Ensures inv V error (within inner act) where
  env _ henv := henv
  value _ a _ heq := hact.value inner a hinner heq
  error _ e _ heq := hact.error inner e hinner heq

theorem bind {first : Action α} {next : α → Action β} (hfirst : Ensures inv V error first)
    (hnext : ∀ a, V a → Ensures inv W error (next a)) : Ensures inv W error (first >>= next) := by
  have hsplit (env : Env) (henv : inv env) :
      inv ((first >>= next) env).env ∧ (∀ b, ((first >>= next) env).result = .ok b → W b) ∧
        ∀ e, ((first >>= next) env).result = .error (.error e) → error e := by
    have henv' := hfirst.env env henv
    rcases h : first env with ⟨halt | a, env', events⟩ <;> rw [h] at henv'
    · rw [bind_of_error h]
      refine ⟨henv', nofun, fun e heq => ?_⟩
      cases heq
      exact hfirst.error env e henv (by rw [h])
    · have ha := hnext a (hfirst.value env a henv (by rw [h]))
      rw [bind_of_ok h]
      exact ⟨ha.env env' henv', fun b => ha.value env' b henv', fun e => ha.error env' e henv'⟩
  exact ⟨fun env henv => (hsplit env henv).1, fun env b henv => (hsplit env henv).2.1 b,
    fun env e henv => (hsplit env henv).2.2 e⟩

theorem all {act : α → Action β} {as : List α} (h : ∀ a ∈ as, Ensures inv W error (act a)) :
    Ensures inv (fun bs => ∀ b ∈ bs, W b) error (all act as) := by
  induction as with
  | nil => exact pure nofun
  | cons a rest ih =>
    obtain ⟨ha, hrest⟩ := List.forall_mem_cons.mp h
    exact bind ha fun b hb => bind (ih hrest) fun bs hbs =>
      pure (List.forall_mem_cons.mpr ⟨hb, hbs⟩)

theorem last {act : α → Action β} {as : List α} (h : ∀ a ∈ as, Ensures inv W error (act a))
    {value : β} (hvalue : W value) : Ensures inv W error (last act value as) := by
  induction as generalizing value with
  | nil => exact pure hvalue
  | cons a rest ih =>
    obtain ⟨ha, hrest⟩ := List.forall_mem_cons.mp h
    exact bind ha fun _ hb => ih hrest hb

/-- Telling the outside of an error changes neither how an action ends nor what it leaves. -/
theorem reporting {act : Action α} (h : Ensures inv V error act) :
    Ensures inv V error (reporting act) where
  env env henv := by rw [reporting_env]; exact h.env env henv
  value env a henv heq := h.value env a henv (by rwa [reporting_result] at heq)
  error env e henv heq := h.error env e henv (by rwa [reporting_result] at heq)

end Action.Ensures

namespace Conclusion

variable {evaluate : Evaluator} {inv : Env → Prop} {V : Value → Prop} {error : ScriptError → Prop}
  {values : List Value}

theorem run_print_ensures (hnil : V .nil) : (run evaluate .print values).Ensures inv V error :=
  .bind (.emit _) fun _ _ => .pure hnil

theorem run_arithmetic_ensures {compute : List Float → Except ScriptError Float}
    (hnumber : ∀ x, V (.number x)) (hnumbers : ∀ got, error (.notNumber got))
    (hcompute : ∀ xs e, compute xs = .error e → error e) :
    (run evaluate (.arithmetic compute) values).Ensures inv V error := by
  refine .bind (V := fun _ => True) (.ofExcept (fun _ _ => trivial) fun e he => ?_)
    fun x _ => .pure (hnumber x)
  cases hvalues : Builtin.numbers values with
  | error e' =>
    obtain ⟨got, rfl⟩ := Builtin.numbers_eq_error hvalues
    rw [hvalues] at he
    cases he
    exact hnumbers got
  | ok xs =>
    rw [hvalues] at he
    exact hcompute xs e he

theorem run_declare_ensures {name : String} (hnil : V .nil)
    (hassign : ∀ env, inv env → inv (env.assign name (values.headD .nil)))
    (herror : error (.redeclared name)) :
    (run evaluate (.declare name) values).Ensures inv V error := by
  have hcases (env : Env) : run evaluate (.declare name) values env =
        ⟨.ok .nil, env.assign name (values.headD .nil), []⟩ ∨
      run evaluate (.declare name) values env = ⟨.error (.error (.redeclared name)), env, []⟩ := by
    rw [run_declare, Env.declare, Scope.declare?]
    cases Frame.binds env.top name with
    | true => exact .inr rfl
    | false => exact .inl rfl
  constructor
  · intro env henv
    rcases hcases env with h | h <;> rw [h]
    · exact hassign env henv
    · exact henv
  · intro env a _ heq
    rcases hcases env with h | h <;> rw [h] at heq <;> cases heq
    exact hnil
  · intro env e _ heq
    rcases hcases env with h | h <;> rw [h] at heq <;> cases heq
    exact herror

end Conclusion

end SnapLisp
