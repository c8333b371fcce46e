import SnapLisp.Proofs.Evaluation.Visits

/-!
# Guarded evaluation

`guardedEval` is evaluation, except that it stops with an error of its own, the marker, where a
closure is applied to an argument that is a closure itself. Where that never happens, it is
evaluation (`guardedEval_eq_eval`).
-/

namespace SnapLisp

/-- Whether a value is a closure. A list of closures is none. -/
def Value.isClosure : Value → Bool
  | .closure .. => true
  | .number _ | .nil | .list _ | .builtin _ => false

/-- Applies a closure to argument forms like `Closure.apply`, but to no closure. -/
def Closure.guardedApply (marker : ScriptError) (evaluate : Evaluator) (params : List String)
    (body : List Form) (scope : Env) (args : List Form) : Action Value := do
  if params.length ≠ args.length then
    Action.fail (.wrongArity (toString params.length) args.length)
  else
    let values ← Action.all evaluate args
    if values.any Value.isClosure then
      Action.fail marker
    else
      Action.within (callEnv scope params values) (runBody evaluate body)

/-- The value of a form like `eval`, but no closure is handed to a closure. -/
def guardedEval (marker : ScriptError) : (fuel : Nat) → Evaluator
  | 0, _ => Action.halt .outOfFuel
  | _ + 1, .number x _ => pure (.number x)
  | _ + 1, .symbol name span => do Action.ofExcept ((← Action.getEnv).get name span)
  | _ + 1, .list [] span => Action.fail (.illFormed span)
  | fuel + 1, .list (head :: args) span => do
    match ← guardedEval marker fuel head with
    | .closure params body scope =>
      Closure.guardedApply marker (guardedEval marker fuel) params body scope args
    | .builtin op => op.apply (guardedEval marker fuel) span args
    | .number _ | .nil | .list _ => Action.fail (.notProcedure head.span)

variable {marker : ScriptError}

@[simp] theorem guardedEval_zero (form : Form) :
    guardedEval marker 0 form = Action.halt .outOfFuel := by
  cases form <;> rfl

/-! ## Guarded plans -/

/-- Comes to the result, unless that hands a closure to a closure. -/
def Conclusion.guardedRun (marker : ScriptError) (evaluate : Evaluator) :
    Conclusion → List Value → Action Value
  | .call params body scope, values =>
    if values.any Value.isClosure then Action.fail marker
    else run evaluate (.call params body scope) values
  | c, values => run evaluate c values

/-- Evaluates the operands and comes to the result, unless that hands a closure to a closure. -/
def Plan.guardedRun (marker : ScriptError) (evaluate : Evaluator) (p : Plan) : Action Value := do
  p.conclusion.guardedRun marker evaluate (← Action.all evaluate p.operands)

section Plans

variable {evaluate : Evaluator}

theorem Conclusion.guardedRun_safe (h : ∀ form, (evaluate form).Safe) (c : Conclusion)
    (values : List Value) : (c.guardedRun marker evaluate values).Safe := by
  unfold guardedRun
  split
  · split
    · exact .fail _
    · exact run_safe h _ _
  · exact run_safe h _ _

theorem Plan.guardedRun_safe (h : ∀ form, (evaluate form).Safe) (p : Plan) :
    (p.guardedRun marker evaluate).Safe :=
  .bind (.all h _) fun _ => p.conclusion.guardedRun_safe h _

/-- Operators do not run bodies, so the guard does not concern them. -/
theorem Builtin.plan_guardedRun {op : Builtin} {span : Span} {args : List Form} {p : Plan}
    (h : op.plan span args = .ok p) : p.guardedRun marker evaluate = p.run evaluate := by
  cases Builtin.planned h <;> rfl

theorem Builtin.apply_eq_guardedPlan (op : Builtin) (span : Span) (args : List Form) :
    op.apply evaluate span args =
      Action.ofExcept (op.plan span args) >>= Plan.guardedRun marker evaluate := by
  rw [Builtin.apply_eq_plan]
  cases h : op.plan span args with
  | error e => simp
  | ok p => simp [plan_guardedRun h]

theorem Closure.guardedApply_eq_plan (h : ∀ form, (evaluate form).Safe) (params : List String)
    (body : List Form) (scope : Env) (head span : Span) (args : List Form) :
    Closure.guardedApply marker evaluate params body scope args =
      Action.ofExcept ((Value.closure params body scope).plan head span args) >>=
        Plan.guardedRun marker evaluate := by
  simp only [guardedApply, Value.plan]
  split
  · simp
  · simp [Plan.guardedRun, Conclusion.guardedRun, Conclusion.run, within_runBody h]

end Plans

private theorem guardedEval_plan_of_safe {fuel : Nat}
    (h : ∀ form, (guardedEval marker fuel form).Safe) (head : Form) (args : List Form)
    (span : Span) :
    guardedEval marker (fuel + 1) (.list (head :: args) span) =
      guardedEval marker fuel head >>= fun f =>
        Action.ofExcept (f.plan head.span span args) >>=
          Plan.guardedRun marker (guardedEval marker fuel) := by
  simp only [guardedEval]
  congr 1
  funext f
  cases f with
  | closure params body scope =>
    exact Closure.guardedApply_eq_plan h params body scope head.span span args
  | builtin op => exact Builtin.apply_eq_guardedPlan op span args
  | number x | nil | list items => simp [Value.plan]

theorem guardedEval_safe (fuel : Nat) (form : Form) : (guardedEval marker fuel form).Safe := by
  induction fuel generalizing form with
  | zero => rw [guardedEval_zero]; exact .outOfFuel
  | succ fuel ih =>
    match form with
    | .number x _ => exact .pure _
    | .symbol name span => exact .bind .getEnv fun _ => .ofExcept _
    | .list [] span => exact .fail _
    | .list (head :: args) span =>
      rw [guardedEval_plan_of_safe ih]
      exact .bind (ih head) fun f => .bind (.ofExcept _) fun p => p.guardedRun_safe ih

theorem guardedEval_plan (fuel : Nat) (head : Form) (args : List Form) (span : Span) :
    guardedEval marker (fuel + 1) (.list (head :: args) span) =
      guardedEval marker fuel head >>= fun f =>
        Action.ofExcept (f.plan head.span span args) >>=
          Plan.guardedRun marker (guardedEval marker fuel) :=
  guardedEval_plan_of_safe (guardedEval_safe fuel) head args span

/-! ## Enough fuel -/

section Extends

variable {evaluate evaluate' : Evaluator}

theorem Conclusion.guardedRun_extends (h : ∀ form, (evaluate form).Extends (evaluate' form))
    (c : Conclusion) (values : List Value) :
    (c.guardedRun marker evaluate values).Extends (c.guardedRun marker evaluate' values) := by
  unfold guardedRun
  split
  · split
    · exact .refl _
    · exact run_extends h _ _
  · exact run_extends h _ _

theorem Plan.guardedRun_extends (h : ∀ form, (evaluate form).Extends (evaluate' form)) (p : Plan) :
    (p.guardedRun marker evaluate).Extends (p.guardedRun marker evaluate') :=
  .bind (.all h _) fun _ => p.conclusion.guardedRun_extends h _

end Extends

theorem guardedEval_extends {fuel more : Nat} (h : fuel ≤ more) (form : Form) :
    (guardedEval marker fuel form).Extends (guardedEval marker more form) := by
  induction fuel generalizing more form with
  | zero => rw [guardedEval_zero]; exact .outOfFuel _
  | succ fuel ih =>
    obtain ⟨more, rfl⟩ : ∃ m, more = m + 1 := ⟨more - 1, by omega⟩
    match form with
    | .number x _ | .symbol name span | .list [] span => exact .refl _
    | .list (head :: args) span =>
      have hle : fuel ≤ more := by omega
      rw [guardedEval_plan, guardedEval_plan]
      exact .bind (ih hle head) fun f => .bind (.refl _) fun p => p.guardedRun_extends (ih hle)

theorem fuelExtends_guardedEval (form : Form) : FuelExtends (guardedEval marker · form) :=
  fun _ _ h => guardedEval_extends h form

/-! ## Handing closures to closures -/

/-- Evaluating the form applies a closure with the right number of arguments, and the value of one
of them is a closure. -/
def Form.HandsClosure (form : Form) (env : Env) : Prop :=
  ∃ (head : Form) (args : List Form) (span : Span) (params : List String) (body : List Form)
    (scope env₁ env₂ env₃ : Env) (values : List Value),
    form.Visits env (.list (head :: args) span) env₁ ∧
      Yields (eval · head) env₁ (.closure params body scope) env₂ ∧
        params.length = args.length ∧
          Yields (fun fuel => Action.all (eval fuel) args) env₂ values env₃ ∧
            ∃ value ∈ values, value.isClosure = true

/-- Evaluating forms from left to right hands a closure to a closure. -/
def Form.AnyHandsClosure (forms : List Form) (env : Env) : Prop :=
  ∃ form env', Reached forms env form env' ∧ form.HandsClosure env'

theorem Form.HandsClosure.of_visitsNext {form form' : Form} {env env' : Env}
    (h : Form.VisitsNext (form, env) (form', env')) (hhands : form'.HandsClosure env') :
    form.HandsClosure env := by
  obtain ⟨head, args, span, params, body, scope, env₁, env₂, env₃, values, hvisits, hrest⟩ := hhands
  exact ⟨head, args, span, params, body, scope, env₁, env₂, env₃, values, .head h hvisits, hrest⟩

/-- Where no closure is handed to a closure the guard does nothing. -/
theorem guardedEval_eq_eval {form : Form} {env : Env} (h : ¬ form.HandsClosure env) (fuel : Nat) :
    guardedEval marker fuel form env = eval fuel form env := by
  induction fuel generalizing form env with
  | zero => rw [guardedEval_zero, eval_zero]
  | succ fuel ih =>
    match form with
    | .number x _ | .symbol name span | .list [] span => rfl
    | .list (head :: args) span =>
      have hnext {form' : Form} {env' : Env}
          (hvisits : Form.VisitsNext (.list (head :: args) span, env) (form', env')) :
          guardedEval marker fuel form' env' = eval fuel form' env' :=
        ih fun hhands => h (hhands.of_visitsNext hvisits)
      rw [guardedEval_plan, eval_plan]
      refine Action.bind_congr_at (hnext .head) fun f env₁ events hhead => ?_
      refine Action.bind_congr_at rfl fun p env₁' events' hplan => ?_
      obtain ⟨hp, rfl, rfl⟩ := Action.ofExcept_eq_ok hplan
      have hf : Yields (eval · head) env f env₁' := ⟨fuel, events, hhead⟩
      refine Action.bind_congr_at (all_congr_of_reached fun form' env' hform =>
        hnext (.operand hf hp hform)) fun values env₂ events₂ hvalues => ?_
      cases Value.planned hp with
      | call hlength =>
        rename_i params body scope
        have hargs : Yields (fun fuel => Action.all (eval fuel) args) env₁' values env₂ :=
          ⟨fuel, events₂, hvalues⟩
        have hnone : ¬ values.any Value.isClosure = true := by
          intro hany
          obtain ⟨value, hmem, hvalue⟩ := List.any_eq_true.mp hany
          exact h ⟨head, args, span, params, body, scope, env, env₁', env₂, values, .refl _ _, hf,
            hlength, hargs, value, hmem, hvalue⟩
        have hbody := last_congr_of_reached .nil fun form' env' hform =>
          hnext (.body hf hlength hargs hform)
        simp only [Conclusion.guardedRun, if_neg hnone, Conclusion.run, Action.within_apply, hbody]
      | declare | close | list | print | arithmetic => rfl

end SnapLisp
