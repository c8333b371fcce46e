import SnapLisp.Proofs.Evaluation.Guarded
import SnapLisp.Proofs.Evaluation.Settles
import SnapLisp.Proofs.Form.Leaves
import SnapLisp.Proofs.Value.Induction

/-!
# When evaluation ends

The language has no loops, and a closure cannot see what is bound after it was made. What is left is
a closure that is handed to a closure: without that every script ends
(`interpret_finishes_or_anyHandsClosure`). Nothing gets smaller along a call, so the proof goes by a
property of values: a closure is `Value.Tame` if it ends for all arguments that are no closures, and
if all values that it may return are tame again. Induction over forms shows that tame environments
give tame values, and induction over values that all values are tame.
-/

namespace SnapLisp

variable {marker : ScriptError}

/-! ## Tame values -/

/-- No closure, or one whose guarded calls end with tame values. -/
inductive Value.Tame (marker : ScriptError) : Value → Prop where
  | inert {v : Value} : v.isClosure = false → Tame marker v
  | closure {params : List String} {body : List Form} {scope : Env} :
      (∀ values : List Value, values.length = params.length →
        (∀ v ∈ values, v.isClosure = false) →
          Finishes (fun fuel => Action.last (guardedEval marker fuel) .nil body)
            (Closure.callEnv scope params values)) →
      (∀ (values : List Value) (v : Value) (env : Env), values.length = params.length →
        (∀ v ∈ values, v.isClosure = false) →
          Yields (fun fuel => Action.last (guardedEval marker fuel) .nil body)
            (Closure.callEnv scope params values) v env → Tame marker v) →
      Tame marker (.closure params body scope)

/-- Gives names tame values only. -/
def Env.Tame (marker : ScriptError) (env : Env) : Prop :=
  ∀ name value, env.lookup name = some value → value.Tame marker

namespace Env.Tame

variable {env : Env}

theorem assign (h : env.Tame marker) (name : String) {value : Value} (hvalue : value.Tame marker) :
    Env.Tame marker (env.assign name value) := by
  intro other v hother
  by_cases heq : other = name
  · rw [heq, Scope.lookup_assign_self] at hother
    cases hother
    exact hvalue
  · rw [Scope.lookup_assign_of_ne _ _ heq] at hother
    exact h other v hother

theorem assignAll (h : env.Tame marker) (bindings : List (String × Value))
    (hbindings : ∀ binding ∈ bindings, binding.2.Tame marker) :
    Env.Tame marker (env.assignAll bindings) := by
  induction bindings generalizing env with
  | nil => exact h
  | cons binding rest ih =>
    exact ih (h.assign binding.1 (hbindings binding (.head _))) fun b hb => hbindings b (.tail _ hb)

theorem callEnv {scope : Env} (h : scope.Tame marker) (params : List String) {values : List Value}
    (hvalues : ∀ v ∈ values, v.Tame marker) :
    Env.Tame marker (Closure.callEnv scope params values) := by
  have hpush : Env.Tame marker scope.push := by
    intro name value hname
    rw [Scope.lookup_push] at hname
    exact h name value hname
  refine hpush.assignAll _ fun binding hmem => ?_
  exact hvalues _ (List.of_mem_zip hmem).2

end Env.Tame

/-- What is shown of guarded evaluation: it ends, and all it yields is tame. -/
abbrev SettlesTame (marker : ScriptError) (act : Nat → Action Value) (env : Env) : Prop :=
  Settles act env fun value env' => value.Tame marker ∧ env'.Tame marker

/-- A closure is tame if its scope is and all forms of its body settle. -/
theorem Value.tame_closure {params : List String} {body : List Form} {scope : Env}
    (hscope : scope.Tame marker)
    (hbody : ∀ form ∈ body, ∀ env : Env, env.Tame marker →
      SettlesTame marker (guardedEval marker · form) env) :
    (Value.closure params body scope).Tame marker := by
  have hcall (values : List Value) (hvalues : ∀ v ∈ values, v.isClosure = false) :
      SettlesTame marker (fun fuel => Action.last (guardedEval marker fuel) .nil body)
        (Closure.callEnv scope params values) :=
    .last fuelExtends_guardedEval hbody (.inert rfl)
      (hscope.callEnv params fun v hv => .inert (hvalues v hv))
  exact .closure (fun values _ hvalues => (hcall values hvalues).finishes)
    fun values v env _ hvalues hyield => ((hcall values hvalues).yields v env hyield).1

/-! ## Guarded evaluation ends -/

/-- A tame closure settles for as many tame values as it has parameters: a closure among them stops
the call. -/
theorem guardedRun_call_settles {params : List String} {body : List Form} {scope : Env}
    (hf : (Value.closure params body scope).Tame marker) {values : List Value}
    (hlength : values.length = params.length) {env : Env} (henv : env.Tame marker) :
    SettlesTame marker (fun fuel =>
      Conclusion.guardedRun marker (guardedEval marker fuel) (.call params body scope) values)
      env := by
  by_cases hany : values.any Value.isClosure = true
  · simp only [Conclusion.guardedRun, if_pos hany]
    exact .fail marker
  · simp only [Conclusion.guardedRun, if_neg hany, Conclusion.run]
    have hinert : ∀ v ∈ values, v.isClosure = false := by simpa using hany
    cases hf with
    | inert hclosure => cases hclosure
    | closure hfinishes hyields =>
      refine .within ⟨hfinishes values hlength hinert, fun v env' hyield => ?_⟩
      exact ⟨hyields values v env' hlength hinert hyield, henv⟩

/-- A name is bound to a tame value, or it was bound before. -/
theorem run_declare_settles (name : String) {values : List Value}
    (hvalues : ∀ v ∈ values, v.Tame marker) {env : Env} (henv : env.Tame marker) :
    SettlesTame marker (fun fuel =>
      Conclusion.run (guardedEval marker fuel) (.declare name) values) env := by
  have hvalue : (values.headD .nil).Tame marker := by
    cases values with
    | nil => exact .inert rfl
    | cons v rest => exact hvalues v (.head _)
  have hrun : ∀ fuel, Conclusion.run (guardedEval marker fuel) (.declare name) values env = _ :=
    fun _ => Conclusion.run_declare name values env
  cases hdeclare : env.declare name (values.headD .nil) with
  | error e =>
    rw [hdeclare] at hrun
    exact .of_eq hrun (fun hout => by cases hout) fun _ heq => by cases heq
  | ok env₁ =>
    rw [hdeclare] at hrun
    refine .of_eq hrun (fun hout => by cases hout) fun v heq => ?_
    cases heq
    refine ⟨.inert rfl, ?_⟩
    simp only [(Env.declare_eq_ok_iff.mp hdeclare).2]
    exact henv.assign name hvalue

section Plan

variable {f : Value} {args : List Form} {p : Plan} {env : Env}

/-- A conclusion settles for tame values, if the applied value is tame and the bodies of new
closures settle. -/
theorem Conclusion.guardedRun_settles (hp : Planned f args p) (hf : f.Tame marker)
    (hargs : ∀ form ∈ args, ∀ env : Env, env.Tame marker →
      SettlesTame marker (guardedEval marker · form) env)
    {values : List Value} (hlength : values.length = p.operands.length)
    (hvalues : ∀ v ∈ values, v.Tame marker) (henv : env.Tame marker) :
    SettlesTame marker (fun fuel => p.conclusion.guardedRun marker (guardedEval marker fuel) values)
      env := by
  cases hp with
  | call hcount => exact guardedRun_call_settles hf (hlength.trans hcount.symm) henv
  | declare => exact run_declare_settles _ hvalues henv
  | close =>
    rename_i params first rest names
    refine .of_eq (fun _ => rfl) (fun hout => by cases hout) fun v heq => ?_
    cases heq
    exact ⟨Value.tame_closure henv fun form hmem => hargs form (.tail _ hmem), henv⟩
  | list => exact .pure ⟨.inert rfl, henv⟩
  | print =>
    refine .of_eq (fun _ => rfl) (fun hout => by cases hout) fun v heq => ?_
    cases heq
    exact ⟨.inert rfl, henv⟩
  | arithmetic =>
    rename_i op compute
    refine .bind (fun _ _ _ => .refl _) (fun _ _ _ _ => .refl _)
      (.ofExcept fun _ _ => henv) fun x env' henv' => ?_
    exact .pure ⟨.inert rfl, henv'⟩

/-- A plan settles: first its operands, which are among the arguments, then its conclusion. -/
theorem Plan.guardedRun_settles (hp : Planned f args p) (hf : f.Tame marker)
    (hargs : ∀ form ∈ args, ∀ env : Env, env.Tame marker →
      SettlesTame marker (guardedEval marker · form) env) (henv : env.Tame marker) :
    SettlesTame marker (fun fuel => p.guardedRun marker (guardedEval marker fuel)) env := by
  simp only [Plan.guardedRun]
  refine .bind (FuelExtends.all fuelExtends_guardedEval _) (fun values => ?_)
    (.all fuelExtends_guardedEval (fun form hmem => hargs form (hp.operands_subset hmem)) henv)
    fun values env₁ hvalues => ?_
  · exact fun _ _ hle => p.conclusion.guardedRun_extends (guardedEval_extends hle) values
  · obtain ⟨⟨hlength, htame⟩, henv₁⟩ := hvalues
    exact Conclusion.guardedRun_settles hp hf hargs hlength htame henv₁

end Plan

/-- Guarded evaluation in a tame environment ends with a tame value. -/
theorem guardedEval_settles (form : Form) :
    ∀ env : Env, env.Tame marker → SettlesTame marker (guardedEval marker · form) env := by
  induction form using Form.induction with
  | symbol name span =>
    intro env henv
    refine .succ (guardedEval_zero _) ?_
    have hget (fuel : Nat) : guardedEval marker (fuel + 1) (.symbol name span) env =
        Action.ofExcept (env.get name span) env := rfl
    unfold Env.get at hget
    cases hlookup : env.lookup name with
    | none =>
      rw [hlookup] at hget
      exact .of_eq hget (fun hout => by cases hout) fun _ heq => by cases heq
    | some value =>
      rw [hlookup] at hget
      refine .of_eq hget (fun hout => by cases hout) fun v heq => ?_
      cases heq
      exact ⟨henv name value hlookup, henv⟩
  | number x span => exact fun env henv => .succ (guardedEval_zero _) (.pure ⟨.inert rfl, henv⟩)
  | list items span ih =>
    intro env henv
    refine .succ (guardedEval_zero _) ?_
    cases items with
    | nil => exact .fail _
    | cons head args =>
      simp only [guardedEval_plan]
      refine .bind (fuelExtends_guardedEval head) (fun f => ?_) (ih head (.head _) env henv)
        fun f env₁ hf => ?_
      · exact fun _ _ hle => .bind (.refl _) fun p =>
          p.guardedRun_extends (guardedEval_extends hle)
      · cases hplan : f.plan head.span span args with
        | error e =>
          simp only [Action.ofExcept_error, Action.fail_bind]
          exact .fail e
        | ok p =>
          simp only [Action.ofExcept_ok, pure_bind]
          exact Plan.guardedRun_settles (Value.planned hplan) hf.1
            (fun form hmem => ih form (.tail _ hmem)) hf.2

/-- All values are tame, since what they contain is. -/
theorem Value.tame (v : Value) : v.Tame marker := by
  induction v using Value.induction with
  | number x => exact .inert rfl
  | nil => exact .inert rfl
  | list items _ => exact .inert rfl
  | builtin op => exact .inert rfl
  | closure params body scope ih => exact tame_closure ih fun form _ => guardedEval_settles form

theorem Env.tame (env : Env) : env.Tame marker := fun _ value _ => value.tame

theorem guardedEval_finishes (marker : ScriptError) (form : Form) (env : Env) :
    Finishes (guardedEval marker · form) env :=
  (guardedEval_settles form env env.tame).finishes

/-- A script that hands no closure to a closure runs like under guard, whatever the marker is. -/
theorem interpret_finishes {script : Script} {env : Env}
    (h : ¬ Form.AnyHandsClosure script.forms env) : Finishes (interpret · script) env := by
  have hsettles : SettlesTame Builtin.noArgument
      (fun fuel => Action.last (guardedEval Builtin.noArgument fuel) .nil script.forms) env :=
    .last fuelExtends_guardedEval (fun form _ => guardedEval_settles form) (.inert rfl) env.tame
  obtain ⟨fuel, hfin⟩ := hsettles.finishes
  have heq : Action.last (guardedEval Builtin.noArgument fuel) .nil script.forms env =
      Action.last (eval fuel) .nil script.forms env :=
    last_congr_of_reached .nil fun form env' hform =>
      guardedEval_eq_eval (fun hhands => h ⟨form, env', hform, hhands⟩) fuel
  simp only [Outcome.Finished, heq] at hfin
  refine ⟨fuel, ?_⟩
  show (interpret fuel script env).result ≠ .error .outOfFuel
  rwa [interpret, Action.reporting_result]

/-- **Termination.** A script that does not end hands a closure to a closure on the way. Evaluation
that stops there ends for every form in every environment, and it is evaluation where that does not
happen. -/
theorem interpret_finishes_or_anyHandsClosure :
    (∀ (script : Script) (env : Env),
      Finishes (interpret · script) env ∨ Form.AnyHandsClosure script.forms env) ∧
      ∀ (marker : ScriptError) (form : Form) (env : Env),
        Finishes (guardedEval marker · form) env ∧
          (form.HandsClosure env ∨
            ∀ fuel, guardedEval marker fuel form env = eval fuel form env) := by
  refine ⟨fun script env => ?_, fun marker form env => ⟨guardedEval_finishes marker form env, ?_⟩⟩
  · by_cases hhands : Form.AnyHandsClosure script.forms env
    · exact .inr hhands
    · exact .inl (interpret_finishes hhands)
  · by_cases hhands : form.HandsClosure env
    · exact .inl hhands
    · exact .inr (guardedEval_eq_eval hhands)

end SnapLisp
