import SnapLisp.Proofs.Evaluation.Fuel

/-!
# What a sequence of evaluations comes to

Forms that are evaluated one after the other all get values (`EvaluatesAll`), or one of them is the
first that fails (`FailsAmong`), or the evaluation of one of them goes on forever. Which of it
happens is told by the single evaluations: `endsWith_all_cases` for a sequence whose values are
collected, and `endsWith_last_iff` for one of which the last value counts.
-/

namespace SnapLisp

/-! ## One action after another -/

/-- The outcome with more events in front. -/
def Outcome.after {α : Type} (o : Outcome α) (events : List Event) : Outcome α :=
  ⟨o.result, o.env, events ++ o.events⟩

theorem Outcome.printed_after {α : Type} (o : Outcome α) (events : List Event) :
    (o.after events).printed = events.flatMap Event.messages ++ o.printed :=
  List.flatMap_append

/-- The outcome of an action that came to a value or to an error of the script. -/
def Outcome.ofExcept {α : Type} (r : Except ScriptError α) (env : Env) (events : List Event) :
    Outcome α :=
  ⟨r.mapError .error, env, events⟩

section Bind

variable {α β : Type} {first : Nat → Action α} {next : Nat → α → Action β} {env env' : Env}
  {events : List Event}

theorem EndsWith.pure (a : α) (env : Env) : EndsWith (fun _ => Pure.pure a) env ⟨.ok a, env, []⟩ :=
  ⟨Outcome.finished_ok a, 0, rfl⟩

/-- Fuel that is enough for both parts is enough for the whole. -/
theorem EndsWith.bind (hfirst : FuelExtends first) (hnext : ∀ a, FuelExtends (next · a)) {a : α}
    {o : Outcome β} (h : EndsWith first env ⟨.ok a, env', events⟩)
    (ho : EndsWith (next · a) env' o) :
    EndsWith (fun fuel => first fuel >>= next fuel) env (o.after events) := by
  obtain ⟨hfin, fuel₁, h₁⟩ := h
  obtain ⟨hfin', fuel₂, rfl⟩ := ho
  refine ⟨hfin', max fuel₁ fuel₂, ?_⟩
  have h₁' : first (max fuel₁ fuel₂) env = ⟨.ok a, env', events⟩ := by
    rw [← h₁]
    exact hfirst _ _ (by omega) env (by rwa [h₁])
  have h₂' : next (max fuel₁ fuel₂) a env' = next fuel₂ a env' :=
    hnext a _ _ (by omega) env' hfin'
  show (first _ >>= next _) env = _
  rw [Action.bind_of_ok h₁', h₂']
  rfl

theorem EndsWith.bind_error {halt : Halt} (h : EndsWith first env ⟨.error halt, env', events⟩) :
    EndsWith (fun fuel => first fuel >>= next fuel) env ⟨.error halt, env', events⟩ := by
  obtain ⟨hfin, fuel, h⟩ := h
  exact ⟨Outcome.finished_of_error hfin, fuel, Action.bind_of_error h _⟩

/-- What is computed from the value of an action takes no fuel. -/
theorem EndsWith.map (f : α → β) {o : Outcome α} (h : EndsWith first env o) :
    EndsWith (fun fuel => first fuel >>= fun a => Pure.pure (f a)) env
      ⟨o.result.map f, o.env, o.events⟩ := by
  obtain ⟨hfin, fuel, rfl⟩ := h
  rcases hvalue : first fuel env with ⟨halt | a, env', events⟩ <;> rw [hvalue] at hfin
  · exact ⟨Outcome.finished_of_error hfin, fuel, Action.bind_of_error hvalue _⟩
  · exact ⟨Outcome.finished_ok (f a), fuel, by simp [Action.bind_of_ok hvalue, Except.map]⟩

/-- A sequence ends because its first part fails, or because its second part ends. -/
theorem EndsWith.of_bind {o : Outcome β}
    (h : EndsWith (fun fuel => first fuel >>= next fuel) env o) :
    (∃ halt env' events, EndsWith first env ⟨.error halt, env', events⟩ ∧
        o = ⟨.error halt, env', events⟩) ∨
      ∃ a env' events o', EndsWith first env ⟨.ok a, env', events⟩ ∧
        EndsWith (next · a) env' o' ∧ o = o'.after events := by
  obtain ⟨hfin, fuel, rfl⟩ := h
  rcases hvalue : first fuel env with ⟨halt | a, env', events⟩
  · have heq := Action.bind_of_error hvalue (next fuel)
    refine .inl ⟨halt, env', events, ⟨?_, fuel, hvalue⟩, heq⟩
    have hfin' : ((first fuel >>= next fuel) env).Finished := hfin
    rw [heq] at hfin'
    exact Outcome.finished_of_error hfin'
  · have heq := Action.bind_of_ok hvalue (next fuel)
    refine .inr ⟨a, env', events, next fuel a env', ⟨Outcome.finished_ok a, fuel, hvalue⟩,
      ⟨?_, fuel, rfl⟩, heq⟩
    have hfin' : ((first fuel >>= next fuel) env).Finished := hfin
    rw [heq] at hfin'
    exact hfin'

/-- Behind a first part that has a value, a sequence ends as its second part does. -/
theorem EndsWith.bind_iff (hfirst : FuelExtends first) (hnext : ∀ a, FuelExtends (next · a)) {a : α}
    (h : EndsWith first env ⟨.ok a, env', events⟩) {o : Outcome β} :
    EndsWith (fun fuel => first fuel >>= next fuel) env o ↔
      ∃ o', EndsWith (next · a) env' o' ∧ o = o'.after events := by
  constructor
  · intro ho
    rcases ho.of_bind with ⟨halt, env₁, events₁, hfails, -⟩ | ⟨_, _, _, o', hvalue, ho', rfl⟩
    · cases h.unique hfirst hfails
    · cases h.unique hfirst hvalue
      exact ⟨o', ho', rfl⟩
  · rintro ⟨o', ho', rfl⟩
    exact h.bind hfirst hnext ho'

theorem EndsWith.finishes_bind_iff (hfirst : FuelExtends first)
    (hnext : ∀ a, FuelExtends (next · a)) {a : α}
    (h : EndsWith first env ⟨.ok a, env', events⟩) :
    Finishes (fun fuel => first fuel >>= next fuel) env ↔ Finishes (next · a) env' := by
  rw [finishes_iff_endsWith, finishes_iff_endsWith]
  constructor
  · rintro ⟨o, ho⟩
    obtain ⟨o', ho', -⟩ := (h.bind_iff hfirst hnext).mp ho
    exact ⟨o', ho'⟩
  · rintro ⟨o', ho'⟩
    exact ⟨_, h.bind hfirst hnext ho'⟩

end Bind

/-! ## Forms from left to right -/

/-- Evaluating the forms one after the other, each in the environment that the one before it left,
gives the values. -/
inductive EvaluatesAll : List Form → Env → List Value → Env → List Event → Prop where
  | nil {env : Env} : EvaluatesAll [] env [] env []
  | cons {form : Form} {rest : List Form} {env env₁ env₂ : Env} {value : Value}
      {values : List Value} {events₁ events₂ : List Event} :
      EndsWith (eval · form) env ⟨.ok value, env₁, events₁⟩ →
        EvaluatesAll rest env₁ values env₂ events₂ →
          EvaluatesAll (form :: rest) env (value :: values) env₂ (events₁ ++ events₂)

/-- Evaluating the forms one after the other comes to one that fails. Those after it do not
matter. -/
inductive FailsAmong : List Form → Env → ScriptError → Env → List Event → Prop where
  | here {form : Form} {rest : List Form} {env env' : Env} {e : ScriptError}
      {events : List Event} :
      EndsWith (eval · form) env ⟨.error (.error e), env', events⟩ →
        FailsAmong (form :: rest) env e env' events
  | there {form : Form} {rest : List Form} {env env₁ env₂ : Env} {value : Value} {e : ScriptError}
      {events₁ events₂ : List Event} :
      EndsWith (eval · form) env ⟨.ok value, env₁, events₁⟩ → FailsAmong rest env₁ e env₂ events₂ →
        FailsAmong (form :: rest) env e env₂ (events₁ ++ events₂)

section Sequences

variable {forms : List Form} {env env' : Env} {values : List Value} {e : ScriptError}
  {events : List Event}

theorem EvaluatesAll.length_eq (h : EvaluatesAll forms env values env' events) :
    values.length = forms.length := by
  induction h with
  | nil => rfl
  | cons _ _ ih => rw [List.length_cons, List.length_cons, ih]

/-- What the first form leaves is where the others start. -/
theorem endsWith_all_cons {form : Form} {value : Value} {o : Outcome (List Value)}
    (hform : EndsWith (eval · form) env ⟨.ok value, env', events⟩)
    (hrest : EndsWith (fun fuel => Action.all (eval fuel) forms) env' o) :
    EndsWith (fun fuel => Action.all (eval fuel) (form :: forms)) env
      ⟨o.result.map (value :: ·), o.env, events ++ o.events⟩ := by
  let collect (fuel : Nat) (value : Value) : Action (List Value) :=
    Action.all (eval fuel) forms >>= fun values => pure (value :: values)
  have hextends (value : Value) : FuelExtends (collect · value) :=
    (FuelExtends.all fuelExtends_eval forms).bind fun _ _ _ _ => .refl _
  exact @EndsWith.bind _ _ _ collect _ _ _ (fuelExtends_eval form) hextends _ _ hform
    (hrest.map (value :: ·))

theorem EvaluatesAll.endsWith_all (h : EvaluatesAll forms env values env' events) :
    EndsWith (fun fuel => Action.all (eval fuel) forms) env ⟨.ok values, env', events⟩ := by
  induction h with
  | nil => exact .pure [] _
  | cons hform _ ih => exact endsWith_all_cons hform ih

theorem FailsAmong.endsWith_all (h : FailsAmong forms env e env' events) :
    EndsWith (fun fuel => Action.all (eval fuel) forms) env ⟨.error (.error e), env', events⟩ := by
  induction h with
  | here he => exact he.bind_error
  | there hform _ ih => exact endsWith_all_cons hform ih

/-- All forms have values, or there is a first one that fails. -/
theorem endsWith_all_cases {o : Outcome (List Value)}
    (h : EndsWith (fun fuel => Action.all (eval fuel) forms) env o) :
    (∃ values env' events, EvaluatesAll forms env values env' events ∧
        o = ⟨.ok values, env', events⟩) ∨
      ∃ e env' events, FailsAmong forms env e env' events ∧
        o = ⟨.error (.error e), env', events⟩ := by
  induction forms generalizing env o with
  | nil => exact .inl ⟨[], env, [], .nil, h.unique (fun _ _ _ => .refl _) (.pure [] env)⟩
  | cons form rest ih =>
    rcases EndsWith.of_bind h with ⟨halt, env₁, events₁, hform, rfl⟩ |
      ⟨value, env₁, events₁, o', hform, ho', rfl⟩
    · rcases eval_result_cases hform with ⟨v, hv⟩ | ⟨e, he⟩
      · cases hv
      · cases he
        exact .inr ⟨e, env₁, events₁, .here hform, rfl⟩
    · rcases EndsWith.of_bind ho' with ⟨halt, env₂, events₂, hrest, rfl⟩ |
        ⟨values, env₂, events₂, o'', hrest, ho'', rfl⟩
      · rcases ih hrest with ⟨_, _, _, _, heq⟩ | ⟨e, _, _, hfails, heq⟩
        · cases heq
        · cases heq
          exact .inr ⟨e, _, _, .there hform hfails, rfl⟩
      · rcases ih hrest with ⟨_, _, _, hvalues, heq⟩ | ⟨_, _, _, _, heq⟩
        · cases heq
          cases ho''.unique (fun _ _ _ => .refl _) (.pure _ _)
          exact .inl ⟨_, _, _, .cons hform hvalues, by simp [Outcome.after]⟩
        · cases heq

/-- The last value is the last one of all values. -/
theorem Action.last_eq_all {α β : Type} (act : α → Action β) (value : β) (as : List α) :
    last act value as = all act as >>= fun bs => pure (bs.getLastD value) := by
  induction as generalizing value with
  | nil => simp
  | cons a rest ih => simp only [last_cons, all_cons, ih, bind_assoc, pure_bind, List.getLastD_cons]

/-- Running the forms in their order comes to the value of the last one, or to the first error. -/
inductive RunsTo (forms : List Form) (env : Env) :
    Except ScriptError Value → Env → List Event → Prop where
  | value {values : List Value} {env' : Env} {events : List Event} :
      EvaluatesAll forms env values env' events →
        RunsTo forms env (.ok (values.getLastD .nil)) env' events
  | error {e : ScriptError} {env' : Env} {events : List Event} :
      FailsAmong forms env e env' events → RunsTo forms env (.error e) env' events

theorem RunsTo.endsWith_last {r : Except ScriptError Value} (h : RunsTo forms env r env' events) :
    EndsWith (fun fuel => Action.last (eval fuel) .nil forms) env (.ofExcept r env' events) := by
  simp only [Action.last_eq_all]
  cases h with
  | value hvalues => exact hvalues.endsWith_all.map (·.getLastD .nil)
  | error he => exact he.endsWith_all.map (·.getLastD .nil)

/-- A sequence ends exactly as its single evaluations say. -/
theorem endsWith_last_iff {o : Outcome Value} :
    EndsWith (fun fuel => Action.last (eval fuel) .nil forms) env o ↔
      ∃ r env' events, RunsTo forms env r env' events ∧ o = .ofExcept r env' events := by
  constructor
  · intro h
    simp only [Action.last_eq_all] at h
    rcases h.of_bind with ⟨halt, env₁, events₁, hforms, rfl⟩ |
      ⟨values, env₁, events₁, o', hforms, ho', rfl⟩
    · rcases endsWith_all_cases hforms with ⟨_, _, _, _, heq⟩ | ⟨e, _, _, hfails, heq⟩ <;> cases heq
      exact ⟨_, _, _, .error hfails, rfl⟩
    · rcases endsWith_all_cases hforms with ⟨_, _, _, hvalues, heq⟩ | ⟨_, _, _, _, heq⟩
        <;> cases heq
      cases ho'.unique (fun _ _ _ => .refl _) (.pure _ _)
      refine ⟨_, _, _, .value hvalues, ?_⟩
      rw [Outcome.after, List.append_nil]
      rfl
  · rintro ⟨r, env', events, h, rfl⟩
    exact h.endsWith_last

end Sequences

end SnapLisp
