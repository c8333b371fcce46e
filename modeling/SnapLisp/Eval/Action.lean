import SnapLisp.Console
import SnapLisp.Value

/-!
# Actions

An `Action` is what evaluating something does: it starts from an environment, and its `Outcome`
holds the environment it leaves, the events on the way, and a value or the reason why there is
none. The environment and the events are there in either case. One action after another continues
in the environment that the first one left, and its events follow; it does not happen if the first
one has no value. Actions form a lawful monad, so they may be regrouped freely.
-/

namespace SnapLisp

/-- Why an action has no value. -/
inductive Halt where
  /-- The script is wrong. -/
  | error (e : ScriptError)
  /-- A rule of the library is broken. -/
  | crash (c : Crash)
  /-- The nesting of evaluations went deeper than allowed. -/
  | outOfFuel
  deriving DecidableEq, Repr

/-- How an action ends. -/
structure Outcome (α : Type) where
  result : Except Halt α
  /-- The environment afterwards. -/
  env : Env
  /-- What happened on the way, the earliest first. -/
  events : List Event

/-- The strings printed on the way. -/
def Outcome.printed {α : Type} (o : Outcome α) : List String := o.events.flatMap Event.messages

/-- Something to be done in an environment. -/
def Action (α : Type) := Env → Outcome α

namespace Action

variable {α β : Type}

/-- Goes on with `next` after `first`, if that has a value. -/
protected def bind (first : Action α) (next : α → Action β) : Action β := fun env =>
  match first env with
  | ⟨.ok a, env, events⟩ =>
    let o := next a env
    ⟨o.result, o.env, events ++ o.events⟩
  | ⟨.error halt, env, events⟩ => ⟨.error halt, env, events⟩

instance : Monad Action where
  pure a := fun env => ⟨.ok a, env, []⟩
  bind := Action.bind

@[simp] theorem pure_apply (a : α) (env : Env) : (pure a : Action α) env = ⟨.ok a, env, []⟩ := rfl

theorem bind_apply (first : Action α) (next : α → Action β) (env : Env) :
    (first >>= next) env =
      match (first env).result with
      | .ok a =>
        ⟨(next a (first env).env).result, (next a (first env).env).env,
          (first env).events ++ (next a (first env).env).events⟩
      | .error halt => ⟨.error halt, (first env).env, (first env).events⟩ := by
  show Action.bind first next env = _
  unfold Action.bind
  rcases first env with ⟨_ | _, _, _⟩ <;> rfl

theorem bind_of_ok {first : Action α} {env env' : Env} {a : α} {events : List Event}
    (h : first env = ⟨.ok a, env', events⟩) (next : α → Action β) :
    (first >>= next) env =
      ⟨(next a env').result, (next a env').env, events ++ (next a env').events⟩ := by
  simp [bind_apply, h]

theorem bind_of_error {first : Action α} {env env' : Env} {halt : Halt} {events : List Event}
    (h : first env = ⟨.error halt, env', events⟩) (next : α → Action β) :
    (first >>= next) env = ⟨.error halt, env', events⟩ := by
  simp [bind_apply, h]

/-- A value at the end of two actions comes from a value in the middle. -/
theorem bind_eq_ok {first : Action α} {next : α → Action β} {env env' : Env} {b : β}
    {events : List Event} (h : (first >>= next) env = ⟨.ok b, env', events⟩) :
    ∃ a env₁ events₁ events₂, first env = ⟨.ok a, env₁, events₁⟩ ∧
      next a env₁ = ⟨.ok b, env', events₂⟩ ∧ events = events₁ ++ events₂ := by
  rcases hfirst : first env with ⟨halt | a, env₁, events₁⟩
  · rw [bind_of_error hfirst] at h
    cases h
  · rw [bind_of_ok hfirst] at h
    rcases hnext : next a env₁ with ⟨result, env₂, events₂⟩
    rw [hnext] at h
    cases h
    exact ⟨a, env₁, events₁, events₂, rfl, hnext, rfl⟩

private theorem id_map_action (act : Action α) : id <$> act = act := by
  funext env
  show (act >>= fun a => pure a) env = act env
  rw [bind_apply]
  rcases act env with ⟨_ | _, _, _⟩ <;> simp

private theorem pure_bind_action (a : α) (next : α → Action β) : pure a >>= next = next a := by
  funext env
  simp [bind_apply]

private theorem bind_assoc_action {γ : Type} (first : Action α) (second : α → Action β)
    (third : β → Action γ) :
    first >>= second >>= third = first >>= fun a => second a >>= third := by
  funext env
  simp only [bind_apply]
  rcases first env with ⟨_ | a, env', _⟩
  · rfl
  · simp only
    rcases second a env' with ⟨_ | _, _, _⟩ <;> simp

instance : LawfulMonad Action :=
  LawfulMonad.mk' Action id_map_action pure_bind_action bind_assoc_action

/-- Stops without a value. -/
def halt (h : Halt) : Action α := fun env => ⟨.error h, env, []⟩

/-- Stops with an error of the script. -/
def fail (e : ScriptError) : Action α := halt (.error e)

/-- The value of a computation that may find an error of the script. -/
def ofExcept : Except ScriptError α → Action α
  | .ok a => pure a
  | .error e => fail e

/-- The environment at hand. -/
def getEnv : Action Env := fun env => ⟨.ok env, env, []⟩

/-- Goes on in another environment. -/
def setEnv (env : Env) : Action Unit := fun _ => ⟨.ok (), env, []⟩

/-- Tells the outside. -/
def emit (e : Event) : Action Unit := fun env => ⟨.ok (), env, [e]⟩

/-- Does something in an environment of its own and then returns to the one at hand. -/
def within (inner : Env) (act : Action α) : Action α := fun env =>
  let o := act inner
  ⟨o.result, env, o.events⟩

/-- Does the same with every element of a list, from left to right, and collects the values. -/
def all (act : α → Action β) : List α → Action (List β)
  | [] => pure []
  | a :: rest => do
    let b ← act a
    return b :: (← all act rest)

/-- Does the same with every element of a list, from left to right, and keeps the last value,
which is `value` for an empty list. -/
def last (act : α → Action β) (value : β) : List α → Action β
  | [] => pure value
  | a :: rest => do last act (← act a) rest

/-- Tells the outside of an error that the action ends with. -/
def reporting (act : Action α) : Action α := fun env =>
  let o := act env
  match o.result with
  | .error (.error e) => ⟨o.result, o.env, o.events ++ [.fail e]⟩
  | _ => o

@[simp] theorem halt_apply (h : Halt) (env : Env) :
    (halt h : Action α) env = ⟨.error h, env, []⟩ := rfl

@[simp] theorem fail_apply (e : ScriptError) (env : Env) :
    (fail e : Action α) env = ⟨.error (.error e), env, []⟩ := rfl

@[simp] theorem ofExcept_ok (a : α) : ofExcept (.ok a) = pure a := rfl

@[simp] theorem ofExcept_error (e : ScriptError) : (ofExcept (.error e) : Action α) = fail e := rfl

@[simp] theorem getEnv_apply (env : Env) : getEnv env = ⟨.ok env, env, []⟩ := rfl

@[simp] theorem setEnv_apply (env old : Env) : setEnv env old = ⟨.ok (), env, []⟩ := rfl

@[simp] theorem emit_apply (e : Event) (env : Env) : emit e env = ⟨.ok (), env, [e]⟩ := rfl

@[simp] theorem within_apply (inner : Env) (act : Action α) (env : Env) :
    within inner act env = ⟨(act inner).result, env, (act inner).events⟩ := rfl

@[simp] theorem reporting_result (act : Action α) (env : Env) :
    (reporting act env).result = (act env).result := by
  simp only [reporting]
  split <;> rfl

@[simp] theorem reporting_env (act : Action α) (env : Env) :
    (reporting act env).env = (act env).env := by
  simp only [reporting]
  split <;> rfl

@[simp] theorem all_nil (act : α → Action β) : all act [] = pure [] := rfl

theorem all_cons (act : α → Action β) (a : α) (rest : List α) :
    all act (a :: rest) = act a >>= fun b => all act rest >>= fun bs => pure (b :: bs) := rfl

@[simp] theorem last_nil (act : α → Action β) (value : β) : last act value [] = pure value := rfl

theorem last_cons (act : α → Action β) (value : β) (a : α) (rest : List α) :
    last act value (a :: rest) = act a >>= fun b => last act b rest := rfl

/-- Doing something with two lists one after the other is doing it with both together. -/
theorem last_append (act : α → Action β) (value : β) (front back : List α) :
    last act value (front ++ back) = last act value front >>= fun b => last act b back := by
  induction front generalizing value with
  | nil => simp
  | cons a rest ih => simp [last_cons, ih]

end Action

end SnapLisp
