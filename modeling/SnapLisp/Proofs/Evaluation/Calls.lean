import SnapLisp.Proofs.Evaluation.Sequence

/-!
# What a call depends on

A call of a closure is settled by the closure and by the values of its arguments. The caller's
environment only serves to evaluate the arguments, and keeps what these left; the body runs in the
closure's own scope with one more frame, in which each parameter has its argument
(`Closure.BindsArguments`). `Closure.CallEnds` says how a call can end, and `call_isolated` that it
ends in this way and in no other, whoever calls.
-/

namespace SnapLisp

/-! ## The frame of a call -/

namespace Scope

variable {α : Type}

/-- What is bound one after the other to other names does not matter. -/
theorem lookup_top_assignAll_of_notMem (s : Scope α) {params : List String} (values : List α)
    {name : String} (h : name ∉ params) :
    (s.assignAll (params.zip values)).top.lookup name = s.top.lookup name := by
  induction params generalizing s values with
  | nil => rfl
  | cons param params ih =>
    obtain ⟨hne, hrest⟩ := not_or.mp (mt List.mem_cons.mpr h)
    cases values with
    | nil => rfl
    | cons value values =>
      show ((s.assign param value).assignAll (params.zip values)).top.lookup name = _
      rw [ih _ values hrest, assign, Frame.lookup_insert_of_ne _ _ hne]

/-- Of the values bound to one name the last one counts. -/
theorem lookup_top_assignAll_of_last (s : Scope α) {params : List String} {values : List α}
    (hlength : params.length = values.length) {i : Nat} {name : String}
    (hname : params[i]? = some name) (hlast : ∀ j, i < j → params[j]? ≠ some name) :
    (s.assignAll (params.zip values)).top.lookup name = values[i]? := by
  induction params generalizing s values i with
  | nil => cases hname
  | cons param params ih =>
    cases values with
    | nil => cases hlength
    | cons value values =>
      show ((s.assign param value).assignAll (params.zip values)).top.lookup name = _
      cases i with
      | zero =>
        have hrest : name ∉ params := by
          intro hmem
          obtain ⟨j, hj⟩ := List.mem_iff_getElem?.mp hmem
          exact hlast (j + 1) (Nat.succ_pos j) hj
        cases hname
        rw [lookup_top_assignAll_of_notMem _ _ hrest, assign, Frame.lookup_insert_self]
        rfl
      | succ i =>
        exact ih _ (Nat.succ.inj hlength) hname fun j hj => hlast (j + 1) (Nat.succ_lt_succ hj)

end Scope

/-- The environment is the scope with one frame on it, in which each parameter has the argument of
the last place where it is named, and nothing else is bound. -/
structure Closure.BindsArguments (scope : Env) (params : List String) (values : List Value)
    (env : Env) : Prop where
  outer : env.outer = scope.frames
  last : ∀ (i : Nat) name, params[i]? = some name → (∀ j, i < j → params[j]? ≠ some name) →
    env.top.lookup name = values[i]?
  only : ∀ name, name ∉ params → env.top.lookup name = none

theorem Closure.callEnv_bindsArguments (scope : Env) {params : List String} {values : List Value}
    (h : params.length = values.length) :
    BindsArguments scope params values (callEnv scope params values) where
  outer := Scope.outer_assignAll scope.push _
  last _ _ hname hlast := scope.push.lookup_top_assignAll_of_last h hname hlast
  only _ hname := scope.push.lookup_top_assignAll_of_notMem values hname

/-! ## How a call ends -/

/-- Calling a closure with argument forms, as an action that needs fuel. -/
abbrev Closure.call (params : List String) (body : List Form) (scope : Env) (args : List Form)
    (fuel : Nat) : Action Value :=
  Closure.apply (eval fuel) params body scope args

/-- How a call ends, in which environment, and with which events. -/
inductive Closure.CallEnds (params : List String) (body : List Form) (scope : Env)
    (args : List Form) (env : Env) : Except ScriptError Value → Env → List Event → Prop where
  /-- The number of arguments is wrong; none of them is evaluated. -/
  | arity : params.length ≠ args.length →
      CallEnds params body scope args env
        (.error (.wrongArity (toString params.length) args.length)) env []
  /-- An argument fails; those after it and the body are not evaluated. -/
  | argument {e : ScriptError} {env' : Env} {events : List Event} : params.length = args.length →
      FailsAmong args env e env' events → CallEnds params body scope args env (.error e) env' events
  /-- The arguments have values, and the body runs in an environment of its own. -/
  | body {values : List Value} {env' inner : Env} {events bodyEvents : List Event}
      {r : Except ScriptError Value} : params.length = args.length →
      EvaluatesAll args env values env' events →
        RunsTo body (callEnv scope params values) r inner bodyEvents →
          CallEnds params body scope args env r env' (events ++ bodyEvents)

section Calls

variable {params : List String} {body : List Form} {scope : Env} {args : List Form} {env : Env}

/-- With a wrong number of arguments nothing at all is done. -/
theorem Closure.call_of_length_ne (h : params.length ≠ args.length) (fuel : Nat) :
    call params body scope args fuel =
      Action.fail (.wrongArity (toString params.length) args.length) :=
  if_pos h

theorem Closure.call_of_length_eq (h : params.length = args.length) (fuel : Nat) :
    call params body scope args fuel = Action.all (eval fuel) args >>= fun values =>
      Action.within (callEnv scope params values) (Action.last (eval fuel) .nil body) := by
  have hsafe := fun values => within_runBody (eval_safe fuel) scope params values body
  simp only [call, apply, if_neg (not_not_intro h), hsafe]

/-- An action in an environment of its own ends as it does there. -/
theorem endsWith_within_iff {act : Nat → Action Value} {inner : Env} {o : Outcome Value} :
    EndsWith (fun fuel => Action.within inner (act fuel)) env o ↔
      ∃ o', EndsWith act inner o' ∧ o = ⟨o'.result, env, o'.events⟩ := by
  constructor
  · rintro ⟨hfin, fuel, rfl⟩
    exact ⟨act fuel inner, ⟨hfin, fuel, rfl⟩, rfl⟩
  · rintro ⟨o', ⟨hfin, fuel, hact⟩, rfl⟩
    exact ⟨hfin, fuel, by rw [← hact]; rfl⟩

theorem fuelExtends_within_last (values : List Value) :
    FuelExtends fun fuel =>
      Action.within (Closure.callEnv scope params values) (Action.last (eval fuel) .nil body) :=
  fun _ _ hle => .within _ (.last (eval_extends hle) _ _)

theorem Closure.CallEnds.endsWith {r : Except ScriptError Value} {env' : Env}
    {events : List Event} (h : CallEnds params body scope args env r env' events) :
    EndsWith (call params body scope args) env (.ofExcept r env' events) := by
  cases h with
  | arity hne =>
    exact ⟨nofun, 0, by rw [call_of_length_ne hne]; rfl⟩
  | argument hlength hfails =>
    simp only [funext (call_of_length_eq hlength)]
    exact hfails.endsWith_all.bind_error
  | body hlength hvalues hbody =>
    simp only [funext (call_of_length_eq hlength)]
    exact hvalues.endsWith_all.bind (.all fuelExtends_eval args) fuelExtends_within_last
      (endsWith_within_iff.mpr ⟨_, hbody.endsWith_last, rfl⟩)

/-- With arguments that have values, a call ends as the body does. -/
theorem Closure.call_endsWith_iff (hlength : params.length = args.length) {values : List Value}
    {env' : Env} {events : List Event} (hvalues : EvaluatesAll args env values env' events)
    {o : Outcome Value} :
    EndsWith (call params body scope args) env o ↔
      ∃ inner, EndsWith (fun fuel => Action.last (eval fuel) .nil body)
          (callEnv scope params values) inner ∧
        o = ⟨inner.result, env', events ++ inner.events⟩ := by
  simp only [funext (call_of_length_eq hlength)]
  rw [hvalues.endsWith_all.bind_iff (.all fuelExtends_eval args) fuelExtends_within_last]
  constructor
  · rintro ⟨_, ho', rfl⟩
    obtain ⟨inner, hinner, rfl⟩ := endsWith_within_iff.mp ho'
    exact ⟨inner, hinner, rfl⟩
  · rintro ⟨inner, hinner, rfl⟩
    exact ⟨_, endsWith_within_iff.mpr ⟨inner, hinner, rfl⟩, rfl⟩

/-- A call has no other end. -/
theorem Closure.callEnds_of_endsWith {o : Outcome Value}
    (h : EndsWith (call params body scope args) env o) :
    ∃ r env' events, CallEnds params body scope args env r env' events ∧
      o = .ofExcept r env' events := by
  by_cases hlength : params.length = args.length
  · have hbind := h
    simp only [funext (call_of_length_eq hlength)] at hbind
    rcases hbind.of_bind with ⟨halt, env₁, events₁, hargs, rfl⟩ | ⟨_, _, _, _, hargs, -, -⟩
    · rcases endsWith_all_cases hargs with ⟨_, _, _, _, heq⟩ | ⟨e, _, _, hfails, heq⟩ <;> cases heq
      exact ⟨.error e, _, _, .argument hlength hfails, rfl⟩
    · rcases endsWith_all_cases hargs with ⟨_, _, _, hvalues, heq⟩ | ⟨_, _, _, _, heq⟩ <;> cases heq
      obtain ⟨inner, hinner, rfl⟩ := (call_endsWith_iff hlength hvalues).mp h
      obtain ⟨r, env', events, hbody, rfl⟩ := endsWith_last_iff.mp hinner
      exact ⟨r, _, _, .body hlength hvalues hbody, rfl⟩
  · obtain ⟨-, fuel, rfl⟩ := h
    exact ⟨_, _, _, .arity hlength, by rw [call_of_length_ne hlength]; rfl⟩

/-- With arguments that have values, a call goes on forever only if the body does. -/
theorem Closure.call_finishes_iff (hlength : params.length = args.length) {values : List Value}
    {env' : Env} {events : List Event} (hvalues : EvaluatesAll args env values env' events) :
    Finishes (call params body scope args) env ↔
      Finishes (fun fuel => Action.last (eval fuel) .nil body) (callEnv scope params values) := by
  rw [finishes_iff_endsWith, finishes_iff_endsWith]
  constructor
  · rintro ⟨o, h⟩
    obtain ⟨inner, hinner, -⟩ := (call_endsWith_iff hlength hvalues).mp h
    exact ⟨inner, hinner⟩
  · rintro ⟨inner, hinner⟩
    exact ⟨_, (call_endsWith_iff hlength hvalues).mpr ⟨inner, hinner, rfl⟩⟩

end Calls

/-- Two calls of one closure by two callers, from whose environments the same values were got: the
one ends if the other does, and then they have the same result, each caller's environment is as the
arguments left it, and the same events follow those of the arguments. -/
structure Closure.CallsAlike (params : List String) (body : List Form) (scope : Env)
    (args₁ args₂ : List Form) (env₁ env₁' env₂ env₂' : Env) (events₁ events₂ : List Event) :
    Prop where
  finishes : Finishes (call params body scope args₁) env₁ ↔
    Finishes (call params body scope args₂) env₂
  ends : ∀ {o₁ o₂}, EndsWith (call params body scope args₁) env₁ o₁ →
    EndsWith (call params body scope args₂) env₂ o₂ →
      o₁.result = o₂.result ∧ o₁.env = env₁' ∧ o₂.env = env₂' ∧
        ∃ bodyEvents, o₁.events = events₁ ++ bodyEvents ∧ o₂.events = events₂ ++ bodyEvents

theorem Closure.callsAlike {params : List String} {body : List Form} {scope : Env}
    {args₁ args₂ : List Form} {values : List Value} {env₁ env₁' env₂ env₂' : Env}
    {events₁ events₂ : List Event} (hlength : params.length = values.length)
    (h₁ : EvaluatesAll args₁ env₁ values env₁' events₁)
    (h₂ : EvaluatesAll args₂ env₂ values env₂' events₂) :
    CallsAlike params body scope args₁ args₂ env₁ env₁' env₂ env₂' events₁ events₂ := by
  have hlength₁ := hlength.trans h₁.length_eq
  have hlength₂ := hlength.trans h₂.length_eq
  refine ⟨(call_finishes_iff hlength₁ h₁).trans (call_finishes_iff hlength₂ h₂).symm, ?_⟩
  intro o₁ o₂ ho₁ ho₂
  obtain ⟨inner, hinner₁, rfl⟩ := (call_endsWith_iff hlength₁ h₁).mp ho₁
  obtain ⟨_, hinner₂, rfl⟩ := (call_endsWith_iff hlength₂ h₂).mp ho₂
  -- both callers run the same body in the same environment
  cases hinner₁.unique (fun _ _ hle => .last (eval_extends hle) _ _) hinner₂
  exact ⟨rfl, rfl, rfl, inner.events, rfl, rfl⟩

/-- **Isolation.** A call ends as the closure and the values of its arguments say, and in no other
way: with a wrong number of arguments it fails before anything is evaluated, an argument that fails
ends it, and otherwise the body runs in the scope of the closure with one more frame, which binds
the parameters alone. Nothing else of the caller has a part in it, and the caller's environment is
as the arguments left it. -/
theorem call_isolated (params : List String) (body : List Form) (scope : Env) :
    (∀ args env fuel, params.length ≠ args.length →
      Closure.call params body scope args fuel env =
        ⟨.error (.error (.wrongArity (toString params.length) args.length)), env, []⟩) ∧
      (∀ args env o, EndsWith (Closure.call params body scope args) env o ↔
        ∃ r env' events, Closure.CallEnds params body scope args env r env' events ∧
          o = .ofExcept r env' events) ∧
      (∀ values, params.length = values.length →
        Closure.BindsArguments scope params values (Closure.callEnv scope params values)) ∧
      ∀ args₁ args₂ values env₁ env₁' env₂ env₂' events₁ events₂, params.length = values.length →
        EvaluatesAll args₁ env₁ values env₁' events₁ →
          EvaluatesAll args₂ env₂ values env₂' events₂ →
            Closure.CallsAlike params body scope args₁ args₂ env₁ env₁' env₂ env₂' events₁
              events₂ := by
  refine ⟨fun args env fuel h => ?_, fun args env o => ⟨Closure.callEnds_of_endsWith, ?_⟩,
    fun _ => Closure.callEnv_bindsArguments scope, fun _ _ _ _ _ _ _ _ _ => Closure.callsAlike⟩
  · rw [Closure.call_of_length_ne h]
    rfl
  · rintro ⟨r, env', events, h, rfl⟩
    exact h.endsWith

/-- A caller's own `x` does not reach the body, and of two parameters `x` the second one counts. -/
theorem call_isolated_shadowed :
    let span : Span := .point .first
    let body : List Form := [.symbol "x" span]
    let args₁ : List Form := [.number 1 span, .number 2 span]
    let args₂ : List Form := [.symbol "x" span, .number 2 span]
    let caller := Env.standard.assign "x" (.number 1)
    Closure.CallsAlike ["x", "x"] body Env.standard args₁ args₂ Env.standard Env.standard caller
        caller [] [] ∧
      (Closure.callEnv Env.standard ["x", "x"] [.number 1, .number 2]).top.lookup "x" =
        some (.number 2) := by
  intro span body args₁ args₂ caller
  have hnumber (env : Env) (x : Float) : EndsWith (eval · (.number x span)) env
      ⟨.ok (.number x), env, []⟩ := ⟨nofun, 1, rfl⟩
  have hsymbol : EndsWith (eval · (.symbol "x" span)) caller ⟨.ok (.number 1), caller, []⟩ := by
    refine ⟨nofun, 1, ?_⟩
    simp [eval_symbol, Action.bind_apply, Env.get, caller, Scope.lookup_assign_self]
  obtain ⟨-, -, hbinds, halike⟩ := call_isolated ["x", "x"] body Env.standard
  refine ⟨?_, (hbinds [.number 1, .number 2] rfl).last 1 "x" rfl ?_⟩
  · exact halike args₁ args₂ [.number 1, .number 2] _ _ _ _ _ _ rfl
      (.cons (hnumber _ 1) (.cons (hnumber _ 2) .nil)) (.cons hsymbol (.cons (hnumber _ 2) .nil))
  · rintro (_ | _ | j) hj
    · cases hj
    · omega
    · exact nofun

end SnapLisp
