import SnapLisp.Proofs.Evaluation.Application

/-!
# Evaluation on a stack, into a sink

An action gives back an environment and the events on the way. A `Machine` works on a state instead:
on a stack of frames, which may well be empty, and on whatever keeps what the run tells. It pushes
and pops the frames of calls one by one, and wherever it wants a frame that is not there it stops;
it hands each message to the sink when the message comes up, and goes on with what the sink has made
of it.

On the frames of an environment the machine does what the action does, whatever the sink is
(`Machine.eval_follows`, `Machine.run_follows`): it never wants for a frame, the stack that it
leaves is that of an environment, and the sink has received the events of the action, in order.
-/

namespace SnapLisp

/-- What keeps the things that runs tell: how it takes note of printed strings, and of the error
that ends a run. -/
structure Sink (σ : Type) where
  log : List String → σ → σ
  fail : ScriptError → σ → σ

namespace Sink

variable {σ : Type}

/-- Takes note of an event. -/
def receive (sink : Sink σ) (s : σ) : Event → σ
  | .log messages => sink.log messages s
  | .fail e => sink.fail e s

/-- Takes note of events in their order. -/
def receiveAll (sink : Sink σ) (s : σ) (events : List Event) : σ := events.foldl sink.receive s

theorem receiveAll_append (sink : Sink σ) (s : σ) (front back : List Event) :
    sink.receiveAll s (front ++ back) = sink.receiveAll (sink.receiveAll s front) back :=
  List.foldl_append

end Sink

/-- Frames, the innermost first. There may be none. -/
abbrev Stack := List (Frame Value)

namespace Machine

/-- Why a machine stops without a value. -/
inductive Stop where
  /-- As an action does. -/
  | halt (h : Halt)
  /-- The top frame is wanted of a stack without frames. -/
  | noFrame

/-- What a machine works on. -/
structure State (σ : Type) where
  stack : Stack
  sink : σ

end Machine

/-- Something to be done with a stack and a sink. -/
abbrev Machine (σ α : Type) := ExceptT Machine.Stop (StateM (Machine.State σ)) α

namespace Machine

variable {σ α β : Type}

/-! ## The stack -/

/-- Goes on with another stack. -/
def setStack (stack : Stack) : Machine σ Unit := modify fun st => { st with stack }

/-- Opens a frame. -/
def push : Machine σ Unit := do setStack ([] :: (← get).stack)

/-- Leaves the top frame, unless it is the only one. -/
def pop : Machine σ Unit := do
  let stack := (← get).stack
  if 1 < stack.length then setStack stack.tail
  else throw (.halt (.crash .outermostFrame))

/-- The top frame and those around it. -/
def frames : Machine σ (Frame Value × Stack) := do
  match (← get).stack with
  | top :: outer => return (top, outer)
  | [] => throw .noFrame

/-- Binds a name in the top frame, in place of the binding that it has there. -/
def assign (name : String) (value : Value) : Machine σ Unit := do
  let (top, outer) ← frames
  setStack (top.insert name value :: outer)

/-- Binds a name in the top frame, unless it is bound there. -/
def declare (name : String) (value : Value) : Machine σ Unit := do
  let (top, _) ← frames
  if top.binds name then throw (.halt (.error (.redeclared name)))
  else assign name value

/-- The value of a name in the innermost frame that binds it. -/
def lookup (name : String) (span : Span) : Machine σ Value := do
  match (← get).stack.findSome? (·.lookup name) with
  | some value => return value
  | none => throw (.halt (.error (.unbound name span)))

/-- A copy of the stack for a closure to own. -/
def snapshot : Machine σ Env := do
  let (top, outer) ← frames
  return ⟨top, outer⟩

/-- Does something on a stack of its own and then returns to the one at hand. -/
def within (stack : Stack) (m : Machine σ α) : Machine σ α := fun st =>
  match m { st with stack } with
  | (result, st') => (result, { st' with stack := st.stack })

/-! ## Evaluation -/

/-- Hands printed strings to the sink. -/
def log (sink : Sink σ) (messages : List String) : Machine σ Unit :=
  modify fun st => { st with sink := sink.log messages st.sink }

/-- Hands an error of the script that `m` ends with to the sink. -/
def reporting (sink : Sink σ) (m : Machine σ α) : Machine σ α := fun st =>
  match m st with
  | (.error (.halt (.error e)), st') =>
    (.error (.halt (.error e)), { st' with sink := sink.fail e st'.sink })
  | ended => ended

/-- The value of a computation that may find an error of the script. -/
def ofExcept : Except ScriptError α → Machine σ α
  | .ok a => return a
  | .error e => throw (.halt (.error e))

/-- Calls a closure: a copy of its scope gets one more frame, in which the parameters are bound and
the body runs, and which is left again. -/
def call (evaluate : Form → Machine σ Value) (params : List String) (body : List Form) (scope : Env)
    (values : List Value) : Machine σ Value :=
  within scope.frames do
    push
    forM (params.zip values) fun binding => assign binding.1 binding.2
    let value ← body.foldlM (fun _ form => evaluate form) .nil
    pop
    return value

/-- Comes to the result of an application. -/
def conclude (sink : Sink σ) (evaluate : Form → Machine σ Value) :
    Conclusion → List Value → Machine σ Value
  | .call params body scope, values => call evaluate params body scope values
  | .list, values => return .list values
  | .print, values => do
    log sink (values.map Value.text)
    return .nil
  | .arithmetic compute, values => do
    return .number (← ofExcept ((Builtin.numbers values).bind compute))
  | .declare name, values => do
    declare name (values.headD .nil)
    return .nil
  | .close params body, _ => do return .closure params body (← snapshot)

/-- The value of a form, with evaluations nested at most `fuel` deep. -/
def eval (sink : Sink σ) : (fuel : Nat) → Form → Machine σ Value
  | 0, _ => throw (.halt .outOfFuel)
  | _ + 1, .number x _ => return .number x
  | _ + 1, .symbol name span => lookup name span
  | _ + 1, .list [] span => throw (.halt (.error (.illFormed span)))
  | fuel + 1, .list (head :: args) span => do
    let f ← eval sink fuel head
    let p ← ofExcept (f.plan head.span span args)
    conclude sink (eval sink fuel) p.conclusion (← p.operands.mapM (eval sink fuel))

/-- Runs the forms of a script in order. -/
def interpret (sink : Sink σ) (fuel : Nat) (script : Script) : Machine σ Value :=
  reporting sink (script.forms.foldlM (fun _ form => eval sink fuel form) .nil)

/-- Runs a source text. -/
def run (sink : Sink σ) (fuel : Nat) (source : String) : Machine σ Value :=
  match Script.ofString source with
  | .ok script => interpret sink fuel script
  | .error e => reporting sink (throw (.halt (.error e)))

/-! ## The machine follows the action -/

/-- On the frames of any environment the machine ends as the action does, with the frames of the
environment that the action leaves, and the sink has received the events on the way. -/
def Follows (sink : Sink σ) (m : Machine σ α) (act : Action α) : Prop :=
  ∀ env s, m ⟨env.frames, s⟩ = ((act env).result.mapError .halt,
    ⟨(act env).env.frames, sink.receiveAll s (act env).events⟩)

theorem bind_apply (first : Machine σ α) (next : α → Machine σ β) (st : State σ) :
    (first >>= next) st = match first st with
      | (.ok a, st') => next a st'
      | (.error stop, st') => (.error stop, st') := by
  show StateT.bind first (ExceptT.bindCont next) st = _
  unfold StateT.bind
  rcases first st with ⟨_ | _, _⟩ <;> rfl

namespace Follows

variable {sink : Sink σ} {first : Machine σ α} {firstAct : Action α}

theorem pure (a : α) : Follows sink (pure a) (pure a) := fun _ _ => rfl

theorem halt (h : Halt) : Follows sink (throw (.halt h) : Machine σ α) (Action.halt h) :=
  fun _ _ => rfl

theorem ofExcept (e : Except ScriptError α) :
    Follows sink (ofExcept e) (Action.ofExcept e) := by
  cases e with
  | error e => exact halt (.error e)
  | ok a => exact pure a

theorem bind {next : α → Machine σ β} {nextAct : α → Action β}
    (hfirst : Follows sink first firstAct) (hnext : ∀ a, Follows sink (next a) (nextAct a)) :
    Follows sink (first >>= next) (firstAct >>= nextAct) := by
  intro env s
  rw [bind_apply, hfirst env s]
  rcases h : firstAct env with ⟨stop | a, env', events⟩
  · rw [Action.bind_of_error h]
    rfl
  · rw [Action.bind_of_ok h, Sink.receiveAll_append]
    exact hnext a env' _

theorem all {evaluate : α → Machine σ β} {evaluateAct : α → Action β}
    (h : ∀ a, Follows sink (evaluate a) (evaluateAct a)) (as : List α) :
    Follows sink (as.mapM evaluate) (Action.all evaluateAct as) := by
  induction as with
  | nil => exact pure []
  | cons a rest ih =>
    rw [List.mapM_cons, Action.all_cons]
    exact bind (h a) fun b => bind ih fun bs => pure (b :: bs)

theorem last {evaluate : α → Machine σ β} {evaluateAct : α → Action β}
    (h : ∀ a, Follows sink (evaluate a) (evaluateAct a)) (value : β) (as : List α) :
    Follows sink (as.foldlM (fun _ a => evaluate a) value) (Action.last evaluateAct value as) := by
  induction as generalizing value with
  | nil => exact pure value
  | cons a rest ih =>
    rw [List.foldlM_cons, Action.last_cons]
    exact bind (h a) fun b => ih b

theorem reporting (h : Follows sink first firstAct) :
    Follows sink (reporting sink first) (Action.reporting firstAct) := by
  intro env s
  rw [Machine.reporting, h env s, Action.reporting]
  rcases firstAct env with ⟨stop | a, env', events⟩
  · cases stop with
    | error e =>
      simp only [Sink.receiveAll_append]
      rfl
    | crash | outOfFuel => rfl
  · rfl

/-- Binding names on the frames of an environment is binding them in the environment. -/
theorem forM_assign (bindings : List (String × Value)) (env : Env) (s : σ) :
    (forM bindings fun binding => assign binding.1 binding.2) (⟨env.frames, s⟩ : State σ) =
      (.ok (), ⟨(env.assignAll bindings).frames, s⟩) := by
  induction bindings generalizing env with
  | nil => rfl
  | cons binding rest ih =>
    have hfirst : assign binding.1 binding.2 (⟨env.frames, s⟩ : State σ) =
        (.ok (), ⟨(env.assign binding.1 binding.2).frames, s⟩) := rfl
    rw [List.forM_cons, bind_apply, hfirst]
    exact ih _

/-- Where a frame has been opened, it can be left again. -/
theorem pop_apply {env scope : Env} (h : env.outer = scope.frames) (s : σ) :
    pop (⟨env.frames, s⟩ : State σ) = (.ok (), ⟨scope.frames, s⟩) := by
  obtain ⟨top, outer⟩ := env
  cases h
  rfl

theorem call {evaluate : Form → Machine σ Value} {evaluateAct : Evaluator}
    (h : ∀ form, Follows sink (evaluate form) (evaluateAct form))
    (hsafe : ∀ form, (evaluateAct form).Safe) (params : List String) (body : List Form)
    (scope : Env) (values : List Value) :
    Follows sink (Machine.call evaluate params body scope values)
      (Action.within (Closure.callEnv scope params values)
        (Action.last evaluateAct .nil body)) := by
  intro env s
  have hpush : push (⟨scope.frames, s⟩ : State σ) = (.ok (), ⟨scope.push.frames, s⟩) := rfl
  have hbind := forM_assign (params.zip values) scope.push s
  have hbody := last h .nil body (Closure.callEnv scope params values) s
  have houter := (Action.Safe.last hsafe .nil body).outer (Closure.callEnv scope params values)
  rw [Closure.callEnv, Scope.outer_assignAll] at houter
  rw [Closure.callEnv] at hbody
  simp only [Machine.call, Machine.within, bind_apply, hpush, hbind, hbody, Action.within_apply,
    Closure.callEnv]
  rcases hlast : Action.last evaluateAct .nil body (scope.push.assignAll (params.zip values)) with
    ⟨stop | value, inner, events⟩ <;> rw [hlast] at houter
  · rfl
  · have hvalue : (Except.ok value).mapError Stop.halt = .ok value := rfl
    simp only [hvalue, pop_apply houter (sink.receiveAll s events)]
    rfl

theorem lookup (name : String) (span : Span) : Follows sink (lookup name span)
    (Action.getEnv >>= fun env => Action.ofExcept (env.get name span)) := by
  intro env s
  show (match env.lookup name with
    | some value => Pure.pure value
    | none => throw (.halt (.error (.unbound name span))) : Machine σ Value) ⟨env.frames, s⟩ = _
  simp only [Action.bind_apply, Action.getEnv_apply, Env.get]
  cases env.lookup name <;> rfl

theorem declare_apply (name : String) (value : Value) (env : Env) (s : σ) :
    declare name value (⟨env.frames, s⟩ : State σ) =
      if Frame.binds env.top name then (.error (.halt (.error (.redeclared name))), ⟨env.frames, s⟩)
      else (.ok (), ⟨(env.assign name value).frames, s⟩) := by
  show (if Frame.binds env.top name then throw (.halt (.error (.redeclared name)))
    else assign name value : Machine σ Unit) ⟨env.frames, s⟩ = _
  split <;> rfl

theorem conclude {evaluate : Form → Machine σ Value} {evaluateAct : Evaluator}
    (h : ∀ form, Follows sink (evaluate form) (evaluateAct form))
    (hsafe : ∀ form, (evaluateAct form).Safe) (c : Conclusion) (values : List Value) :
    Follows sink (Machine.conclude sink evaluate c values) (c.run evaluateAct values) := by
  cases c with
  | call params body scope => exact call h hsafe params body scope values
  | list => exact pure _
  | print => exact fun _ _ => rfl
  | arithmetic compute => exact bind (ofExcept _) fun x => pure _
  | declare name =>
    intro env s
    rw [Conclusion.run_declare, Machine.conclude, bind_apply, declare_apply, Env.declare,
      Scope.declare?]
    cases Frame.binds env.top name <;> rfl
  | close params body => exact fun _ _ => rfl

end Follows

/-- **The machine follows.** The machine evaluates forms as the evaluator does. -/
theorem eval_follows (sink : Sink σ) (fuel : Nat) (form : Form) :
    Follows sink (eval sink fuel form) (SnapLisp.eval fuel form) := by
  induction fuel generalizing form with
  | zero => rw [eval_zero]; exact .halt _
  | succ fuel ih =>
    match form with
    | .number x _ => exact .pure _
    | .symbol name span => exact .lookup name span
    | .list [] span => exact .halt _
    | .list (head :: args) span =>
      rw [eval_plan]
      exact .bind (ih head) fun f => .bind (.ofExcept _) fun p =>
        .bind (.all ih _) fun values => .conclude ih (eval_safe fuel) _ _

theorem interpret_follows (sink : Sink σ) (fuel : Nat) (script : Script) :
    Follows sink (interpret sink fuel script) (SnapLisp.interpret fuel script) :=
  .reporting (.last (eval_follows sink fuel) .nil script.forms)

theorem run_follows (sink : Sink σ) (fuel : Nat) (source : String) :
    Follows sink (run sink fuel source) (SnapLisp.run fuel source) := by
  unfold run SnapLisp.run
  cases Script.ofString source with
  | ok script => exact interpret_follows sink fuel script
  | error e => exact .reporting (.halt (.error e))

end Machine

end SnapLisp
