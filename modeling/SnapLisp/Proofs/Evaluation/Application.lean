import SnapLisp.Eval.Basic

/-!
# What an application does

All applications run alike. The head gets its value; that value and the argument forms make a
`Plan`, or an error of the script; the operands of the plan get their values from left to right;
and the `Conclusion` of the plan turns these values into the result.

- `eval_plan`: evaluating a form that has a head is running the plan of the head's value.
- `eval_safe`: evaluation writes to the top frame only, and it breaks no rule of the library. So
  the frame of a call can always be left again, which is why a conclusion does not mention it
  (`Closure.within_runBody`).
-/

namespace SnapLisp

/-! ## Plans -/

/-- What an application does once its operands have values. -/
inductive Conclusion where
  /-- Runs the body of a closure. -/
  | call (params : List String) (body : List Form) (scope : Env)
  /-- Collects the values. -/
  | list
  /-- Prints the values. -/
  | print
  /-- Computes a number from numbers. -/
  | arithmetic (compute : List Float → Except ScriptError Float)
  /-- Binds a name to the value. -/
  | declare (name : String)
  /-- Makes a closure. -/
  | close (params : List String) (body : List Form)

/-- The forms that an application evaluates first, and what it does then. -/
structure Plan where
  operands : List Form
  conclusion : Conclusion

/-- The plan of an operator; `span` is that of the whole form. -/
def Builtin.plan (op : Builtin) (span : Span) (args : List Form) : Except ScriptError Plan :=
  match op with
  | .define =>
    match args with
    | [.symbol name _, value] => .ok ⟨[value], .declare name⟩
    | [target, _] => .error (.illFormedSpecial Builtin.define.name target.span)
    | _ => .error (.illFormedSpecial Builtin.define.name span)
  | .lambda =>
    match args with
    | params :: first :: rest =>
      (parameters params).map fun names => ⟨[], .close names (first :: rest)⟩
    | _ => .error (.illFormedSpecial Builtin.lambda.name span)
  | .list => .ok ⟨args, .list⟩
  | .print => .ok ⟨args, .print⟩
  | .add => .ok ⟨args, .arithmetic fun xs => .ok (xs.foldl (· + ·) 0)⟩
  | .multiply => .ok ⟨args, .arithmetic fun xs => .ok (xs.foldl (· * ·) 1)⟩
  | .subtract => .ok ⟨args, .arithmetic (reduce (· - ·) (- ·))⟩
  | .divide => .ok ⟨args, .arithmetic (reduce (· / ·) (1 / ·))⟩

/-- The plan of an applied value. Only operators and closures with the right number of arguments
have one. -/
def Value.plan (f : Value) (head span : Span) (args : List Form) : Except ScriptError Plan :=
  match f with
  | .closure params body scope =>
    if params.length ≠ args.length then
      .error (.wrongArity (toString params.length) args.length)
    else .ok ⟨args, .call params body scope⟩
  | .builtin op => op.plan span args
  | .number _ | .nil | .list _ => .error (.notProcedure (some head))

/-- Comes to the result. -/
def Conclusion.run (evaluate : Evaluator) : Conclusion → List Value → Action Value
  | .call params body scope, values =>
    Action.within (Closure.callEnv scope params values) (Action.last evaluate .nil body)
  | .list, values => pure (.list values)
  | .print, values => do
    Action.emit (.log (values.map Value.text))
    return .nil
  | .arithmetic compute, values => do
    return .number (← Action.ofExcept ((Builtin.numbers values).bind compute))
  | .declare name, values => do
    Action.setEnv (← Action.ofExcept ((← Action.getEnv).declare name (values.headD .nil)))
    return .nil
  | .close params body, _ => do return .closure params body (← Action.getEnv)

/-- Evaluates the operands and comes to the result. -/
def Plan.run (evaluate : Evaluator) (p : Plan) : Action Value := do
  p.conclusion.run evaluate (← Action.all evaluate p.operands)

namespace Action

variable {α β : Type}

theorem ofExcept_bind (e : Except ScriptError α) (next : α → Except ScriptError β) :
    ofExcept (e.bind next) = ofExcept e >>= fun a => ofExcept (next a) := by
  cases e with
  | error e => funext env; simp [Except.bind, bind_apply]
  | ok a => simp [Except.bind]

theorem ofExcept_map (e : Except ScriptError α) (f : α → β) :
    ofExcept (e.map f) = f <$> ofExcept e := by
  cases e with
  | error e => funext env; rw [map_eq_pure_bind]; simp [Except.map, bind_apply]
  | ok a => simp [Except.map]

theorem ofExcept_eq_ok {e : Except ScriptError α} {env env' : Env} {a : α} {events : List Event}
    (h : ofExcept e env = ⟨.ok a, env', events⟩) : e = .ok a ∧ env' = env ∧ events = [] := by
  cases e with
  | error e => cases h
  | ok b => cases h; exact ⟨rfl, rfl, rfl⟩

/-- An error has no continuation. -/
@[simp] theorem fail_bind (e : ScriptError) (next : α → Action β) :
    (fail e : Action α) >>= next = fail e := by
  funext env
  simp [bind_apply]

end Action

/-- A value that is no number is all that can be wrong with the values of arithmetic. -/
theorem Builtin.numbers_eq_error {values : List Value} {e : ScriptError}
    (h : numbers values = .error e) : ∃ got, e = .notNumber got := by
  fun_induction numbers values with
  | case1 => -- no value
    cases h
  | case2 x rest ih => -- a number first
    cases hrest : numbers rest with
    | error e' =>
      rw [hrest] at h ih
      cases h
      exact ih rfl
    | ok xs =>
      rw [hrest] at h
      cases h
  | case3 => -- anything else first
    cases h
    exact ⟨_, rfl⟩

/-- A missing argument is all that can be wrong with the numbers. -/
theorem Builtin.reduce_eq_error {op : Float → Float → Float} {lone : Float → Float}
    {xs : List Float} {e : ScriptError} (h : reduce op lone xs = .error e) : e = noArgument := by
  unfold reduce at h
  split at h <;> cases h
  rfl

/-- An operator acts by its plan. -/
theorem Builtin.apply_eq_plan (evaluate : Evaluator) (op : Builtin) (span : Span)
    (args : List Form) :
    op.apply evaluate span args = Action.ofExcept (op.plan span args) >>= Plan.run evaluate := by
  cases op with
  | define =>
    simp only [apply, applyDefine, plan]
    split
    · simp [Plan.run, Conclusion.run, Action.all_cons]
    · simp
    · simp
  | lambda =>
    simp only [apply, applyLambda, plan]
    split
    · simp [Action.ofExcept_map, Plan.run, Conclusion.run]
    · simp
  | list | print | add | multiply | subtract | divide =>
    simp [apply, plan, Plan.run, Conclusion.run, numericArgs, Action.ofExcept_bind]

/-- The values that have a plan for given arguments, each with its plan. -/
inductive Planned : Value → List Form → Plan → Prop where
  | call {params : List String} {body args : List Form} {scope : Env} :
      params.length = args.length →
        Planned (.closure params body scope) args ⟨args, .call params body scope⟩
  | declare {name : String} {nameSpan : Span} {value : Form} :
      Planned (.builtin .define) [.symbol name nameSpan, value] ⟨[value], .declare name⟩
  | close {params first : Form} {rest : List Form} {names : List String} :
      Planned (.builtin .lambda) (params :: first :: rest) ⟨[], .close names (first :: rest)⟩
  | list {args : List Form} : Planned (.builtin .list) args ⟨args, .list⟩
  | print {args : List Form} : Planned (.builtin .print) args ⟨args, .print⟩
  | arithmetic {op : Builtin} {args : List Form} {compute : List Float → Except ScriptError Float} :
      Planned (.builtin op) args ⟨args, .arithmetic compute⟩

theorem Builtin.planned {op : Builtin} {span : Span} {args : List Form} {p : Plan}
    (h : op.plan span args = .ok p) : Planned (.builtin op) args p := by
  cases op with
  | define =>
    simp only [plan] at h
    split at h
    · cases h
      exact .declare
    · cases h
    · cases h
  | lambda =>
    simp only [plan] at h
    split at h
    · rename_i params first rest
      cases hparams : parameters params <;> rw [hparams] at h <;> cases h
      exact .close
    · cases h
  | list => cases h; exact .list
  | print => cases h; exact .print
  | add | multiply | subtract | divide => cases h; exact .arithmetic

theorem Value.planned {f : Value} {head span : Span} {args : List Form} {p : Plan}
    (h : f.plan head span args = .ok p) : Planned f args p := by
  cases f with
  | closure params body scope =>
    simp only [plan] at h
    split at h
    · cases h
    · rename_i hlength
      cases h
      exact .call (Decidable.not_not.mp hlength)
  | builtin op => exact Builtin.planned h
  | number x | nil | list items => cases h

/-- What is evaluated as an operand stands among the arguments. -/
theorem Planned.operands_subset {f : Value} {args : List Form} {p : Plan} (h : Planned f args p) :
    p.operands ⊆ args := by
  cases h with
  | call | list | print | arithmetic => exact List.Subset.refl _
  | declare => exact List.subset_cons_self _ _
  | close => exact List.nil_subset _

/-! ## Safe actions -/

/-- Writes to the top frame only, and breaks no rule of the library. -/
structure Action.Safe {α : Type} (act : Action α) : Prop where
  outer : ∀ env, (act env).env.outer = env.outer
  not_crash : ∀ env c, (act env).result ≠ .error (.crash c)

namespace Action.Safe

variable {α β : Type} {first : Action α} {next : α → Action β}

theorem pure (a : α) : Safe (pure a : Action α) := ⟨fun _ => rfl, fun _ _ h => nomatch h⟩

theorem fail (e : ScriptError) : Safe (fail e : Action α) :=
  ⟨fun _ => rfl, fun _ _ h => nomatch h⟩

theorem ofExcept (e : Except ScriptError α) : Safe (ofExcept e) := by
  cases e with
  | error e => exact fail e
  | ok a => exact pure a

theorem outOfFuel : Safe (halt .outOfFuel : Action α) := ⟨fun _ => rfl, fun _ _ h => nomatch h⟩

theorem getEnv : Safe getEnv := ⟨fun _ => rfl, fun _ _ h => nomatch h⟩

theorem emit (e : Event) : Safe (emit e) := ⟨fun _ => rfl, fun _ _ h => nomatch h⟩

theorem within (inner : Env) {act : Action α} (h : Safe act) : Safe (within inner act) :=
  ⟨fun _ => rfl, fun _ c => h.not_crash inner c⟩

theorem bind (hfirst : Safe first) (hnext : ∀ a, Safe (next a)) : Safe (first >>= next) := by
  constructor
  · intro env
    have ho := hfirst.outer env
    rcases h : first env with ⟨_ | a, env', events⟩ <;> rw [h] at ho
    · rwa [bind_of_error h]
    · rw [bind_of_ok h, (hnext a).outer, ho]
  · intro env c
    have hc := hfirst.not_crash env c
    rcases h : first env with ⟨halt | a, env', events⟩ <;> rw [h] at hc
    · rw [bind_of_error h]
      simpa using hc
    · rw [bind_of_ok h]
      exact (hnext a).not_crash env' c

variable {act : α → Action β}

theorem all (h : ∀ a, Safe (act a)) (as : List α) : Safe (all act as) := by
  induction as with
  | nil => exact pure []
  | cons a rest ih => exact bind (h a) fun _ => bind ih fun _ => pure _

theorem last (h : ∀ a, Safe (act a)) (value : β) (as : List α) : Safe (last act value as) := by
  induction as generalizing value with
  | nil => exact pure value
  | cons a rest ih => exact bind (h a) ih

/-- Telling the outside of an error changes neither how an action ends nor what it leaves. -/
theorem reporting (h : Safe first) : Safe (reporting first) := by
  constructor
  · intro env
    rw [reporting_env]
    exact h.outer env
  · intro env c
    rw [reporting_result]
    exact h.not_crash env c

end Action.Safe

theorem Scope.outer_assignAll {α : Type} (s : Scope α) (bindings : List (String × α)) :
    (s.assignAll bindings).outer = s.outer := by
  induction bindings generalizing s with
  | nil => rfl
  | cons binding rest ih => exact ih _

/-- A name is declared by being bound, in a top frame that does not bind it yet. -/
theorem Env.declare_eq_ok_iff {env env' : Env} {name : String} {value : Value} :
    env.declare name value = .ok env' ↔
      Frame.binds env.top name = false ∧ env' = env.assign name value := by
  cases h : Frame.binds env.top name <;> simp [declare, Scope.declare?, h, eq_comm]

variable {evaluate : Evaluator}

theorem Conclusion.run_declare (name : String) (values : List Value) (env : Env) :
    run evaluate (.declare name) values env =
      match env.declare name (values.headD .nil) with
      | .ok env' => ⟨.ok .nil, env', []⟩
      | .error e => ⟨.error (.error e), env, []⟩ := by
  simp only [run, Action.bind_apply, Action.getEnv_apply]
  cases h : env.declare name (values.headD .nil) <;> simp

theorem Conclusion.run_safe (h : ∀ form, (evaluate form).Safe) (c : Conclusion)
    (values : List Value) : (c.run evaluate values).Safe := by
  cases c with
  | call params body scope => exact .within _ (.last h _ _)
  | list => exact .pure _
  | print => exact .bind (.emit _) fun _ => .pure _
  | arithmetic compute => exact .bind (.ofExcept _) fun _ => .pure _
  | close params body => exact .bind .getEnv fun _ => .pure _
  | declare name =>
    -- setting the environment is safe only because of where the new one comes from
    constructor
    · intro env
      rw [run_declare]
      split
      · rename_i env' henv
        rw [(Env.declare_eq_ok_iff.mp henv).2, Scope.outer_assign]
      · rfl
    · intro env c
      rw [run_declare]
      split <;> simp

theorem Plan.run_safe (h : ∀ form, (evaluate form).Safe) (p : Plan) : (p.run evaluate).Safe :=
  .bind (.all h _) fun _ => p.conclusion.run_safe h _

/-- The frame of a call is there when the body is done, and outside of the call nothing shows that
it is left. -/
theorem Closure.within_runBody (h : ∀ form, (evaluate form).Safe) (scope : Env)
    (params : List String) (values : List Value) (body : List Form) :
    Action.within (callEnv scope params values) (runBody evaluate body) =
      Action.within (callEnv scope params values) (Action.last evaluate .nil body) := by
  funext env
  have houter := (Action.Safe.last h .nil body).outer (callEnv scope params values)
  simp only [Action.within_apply, runBody]
  rcases hlast : Action.last evaluate .nil body (callEnv scope params values) with
    ⟨halt | value, inner, events⟩
  · rw [Action.bind_of_error hlast]
  · have hinner : inner.outer = scope.frames := by
      rw [hlast] at houter
      simpa [callEnv, Scope.push, Scope.outer_assignAll] using houter
    have hpop : inner.pop? = some scope := by
      rw [Scope.pop?, hinner]
      rfl
    rw [Action.bind_of_ok hlast]
    simp [leave, Action.bind_apply, hpop]

/-- A closure acts by its plan. -/
theorem Closure.apply_eq_plan (h : ∀ form, (evaluate form).Safe) (params : List String)
    (body : List Form) (scope : Env) (head span : Span) (args : List Form) :
    Closure.apply evaluate params body scope args =
      Action.ofExcept ((Value.closure params body scope).plan head span args) >>=
        Plan.run evaluate := by
  simp only [apply, Value.plan]
  split
  · simp
  · simp [Plan.run, Conclusion.run, within_runBody h]

/-! ## Evaluation -/

private theorem eval_plan_of_safe {fuel : Nat} (h : ∀ form, (eval fuel form).Safe) (head : Form)
    (args : List Form) (span : Span) :
    eval (fuel + 1) (.list (head :: args) span) = eval fuel head >>= fun f =>
      Action.ofExcept (f.plan head.span span args) >>= Plan.run (eval fuel) := by
  rw [eval_application]
  congr 1
  funext f
  cases f with
  | closure params body scope => exact Closure.apply_eq_plan h params body scope head.span span args
  | builtin op => exact Builtin.apply_eq_plan (eval fuel) op span args
  | number x | nil | list items => simp [Value.plan]

/-- Whatever is evaluated, all frames but the top one stay as they are, and the run does not
crash. -/
theorem eval_safe (fuel : Nat) (form : Form) : (eval fuel form).Safe := by
  induction fuel generalizing form with
  | zero => rw [eval_zero]; exact .outOfFuel
  | succ fuel ih =>
    match form with
    | .number x _ => exact .pure _
    | .symbol name span => exact .bind .getEnv fun _ => .ofExcept _
    | .list [] span => exact .fail _
    | .list (head :: args) span =>
      rw [eval_plan_of_safe ih]
      exact .bind (ih head) fun f => .bind (.ofExcept _) fun p => p.run_safe ih

theorem run_safe (fuel : Nat) (source : String) : (run fuel source).Safe := by
  unfold run
  cases Script.ofString source with
  | ok script => exact .reporting (.last (eval_safe fuel) _ _)
  | error e => exact .reporting (.fail e)

/-- A form with a head is evaluated by the plan of the head's value. -/
theorem eval_plan (fuel : Nat) (head : Form) (args : List Form) (span : Span) :
    eval (fuel + 1) (.list (head :: args) span) = eval fuel head >>= fun f =>
      Action.ofExcept (f.plan head.span span args) >>= Plan.run (eval fuel) :=
  eval_plan_of_safe (eval_safe fuel) head args span

end SnapLisp
