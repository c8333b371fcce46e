import Mathlib.Data.List.Forall2
import SnapLisp.Proofs.Evaluation.Fuel

/-!
# Two runs side by side

`Action.Rel` compares what two actions do from related environments: the environments afterwards
are related again, so are the values, and what the outside is told differs no more than a
`Likeness` allows. Each way to build an action has its rule, so two evaluations are compared by
following how they are built; so has each way to conclude an application that does not run forms.
What holds for every amount of fuel then holds of the outcomes (`EndsWith.rel`).
-/

namespace SnapLisp

/-- How far two runs may differ in what the outside sees of them. -/
structure Likeness where
  halt : Halt → Halt → Prop
  event : Event → Event → Prop

/-- The two runs look the same. -/
def Likeness.same : Likeness := ⟨Eq, Eq⟩

/-- Both have a value, or both have an error. -/
inductive ExceptRel {ε ε' α β : Type} (E : ε → ε' → Prop) (V : α → β → Prop) :
    Except ε α → Except ε' β → Prop where
  | ok {a b} : V a b → ExceptRel E V (.ok a) (.ok b)
  | error {e e'} : E e e' → ExceptRel E V (.error e) (.error e')

theorem ExceptRel.mono {ε ε' α β : Type} {E E' : ε → ε' → Prop} {V V' : α → β → Prop}
    {x : Except ε α} {y : Except ε' β} (h : ExceptRel E V x y) (hE : ∀ e e', E e e' → E' e e')
    (hV : ∀ a b, V a b → V' a b) : ExceptRel E' V' x y := by
  cases h with
  | ok h => exact .ok (hV _ _ h)
  | error h => exact .error (hE _ _ h)

theorem ExceptRel.of_ok_left {ε ε' α β : Type} {E : ε → ε' → Prop} {V : α → β → Prop} {a : α}
    {y : Except ε' β} (h : ExceptRel E V (.ok a) y) : ∃ b, y = .ok b ∧ V a b := by
  cases h with
  | ok h => exact ⟨_, rfl, h⟩

theorem ExceptRel.of_error_left {ε ε' α β : Type} {E : ε → ε' → Prop} {V : α → β → Prop} {e : ε}
    {y : Except ε' β} (h : ExceptRel E V (.error e) y) : ∃ e', y = .error e' ∧ E e e' := by
  cases h with
  | error h => exact ⟨_, rfl, h⟩

theorem ExceptRel.bind {ε ε' α β γ δ : Type} {E : ε → ε' → Prop} {V : α → β → Prop}
    {W : γ → δ → Prop} {x : Except ε α} {y : Except ε' β} {f : α → Except ε γ}
    {g : β → Except ε' δ} (h : ExceptRel E V x y)
    (hfg : ∀ a b, V a b → ExceptRel E W (f a) (g b)) : ExceptRel E W (x >>= f) (y >>= g) := by
  cases h with
  | ok h => exact hfg _ _ h
  | error h => exact .error h

theorem ExceptRel.map {ε ε' α β γ δ : Type} {E : ε → ε' → Prop} {V : α → β → Prop}
    {W : γ → δ → Prop} {x : Except ε α} {y : Except ε' β} {f : α → γ} {g : β → δ}
    (h : ExceptRel E V x y) (hfg : ∀ a b, V a b → W (f a) (g b)) :
    ExceptRel E W (x.map f) (y.map g) := by
  cases h with
  | ok h => exact .ok (hfg _ _ h)
  | error h => exact .error h

/-- Two outcomes that are alike, with related environments and values. -/
structure Outcome.Rel {α β : Type} (L : Likeness) (E : Env → Env → Prop) (V : α → β → Prop)
    (o₁ : Outcome α) (o₂ : Outcome β) : Prop where
  result : ExceptRel L.halt V o₁.result o₂.result
  env : E o₁.env o₂.env
  events : List.Forall₂ L.event o₁.events o₂.events

/-- Where one run ended with a value or an error of the script, so did the other one, or it stopped
for a related reason. -/
theorem Outcome.Rel.result_cases {α β : Type} {L : Likeness} {E : Env → Env → Prop}
    {V : α → β → Prop} {o₁ : Outcome α} {o₂ : Outcome β} (h : o₁.Rel L E V o₂)
    (ho : (∃ a, o₁.result = .ok a) ∨ ∃ e, o₁.result = .error (.error e)) :
    (∃ a b, o₁.result = .ok a ∧ o₂.result = .ok b ∧ V a b) ∨
      ∃ e halt, o₁.result = .error (.error e) ∧ o₂.result = .error halt ∧
        L.halt (.error e) halt := by
  have hresult := h.result
  rcases ho with ⟨a, ha⟩ | ⟨e, he⟩
  · rw [ha] at hresult
    obtain ⟨b, hb, hab⟩ := hresult.of_ok_left
    exact .inl ⟨a, b, ha, hb, hab⟩
  · rw [he] at hresult
    obtain ⟨halt, hhalt, hrel⟩ := hresult.of_error_left
    exact .inr ⟨e, halt, he, hhalt, hrel⟩

/-- Two actions that lead from related environments to related outcomes. -/
def Action.Rel {α β : Type} (L : Likeness) (E : Env → Env → Prop) (V : α → β → Prop)
    (act₁ : Action α) (act₂ : Action β) : Prop :=
  ∀ env₁ env₂, E env₁ env₂ → (act₁ env₁).Rel L E V (act₂ env₂)

namespace Action.Rel

variable {α β γ δ : Type} {L : Likeness} {E : Env → Env → Prop} {V : α → β → Prop}
  {W : γ → δ → Prop}

theorem pure {a : α} {b : β} (h : V a b) : Rel L E V (pure a) (pure b) :=
  fun _ _ henv => ⟨.ok h, henv, .nil⟩

theorem halt {h₁ h₂ : Halt} (h : L.halt h₁ h₂) : Rel L E V (halt h₁) (halt h₂) :=
  fun _ _ henv => ⟨.error h, henv, .nil⟩

theorem ofExcept {x : Except ScriptError α} {y : Except ScriptError β}
    (h : ExceptRel (fun e e' => L.halt (.error e) (.error e')) V x y) :
    Rel L E V (ofExcept x) (ofExcept y) := by
  cases h with
  | ok h => exact pure h
  | error h => exact halt h

theorem getEnv : Rel L E E getEnv getEnv := fun _ _ henv => ⟨.ok henv, henv, .nil⟩

theorem emit {e₁ e₂ : Event} (h : L.event e₁ e₂) {V : Unit → Unit → Prop} (hV : V () ()) :
    Rel L E V (emit e₁) (emit e₂) :=
  fun _ _ henv => ⟨.ok hV, henv, .cons h .nil⟩

/-- Inside, another relation between environments may be kept. -/
theorem within {E' : Env → Env → Prop} {inner₁ inner₂ : Env} {act₁ : Action α} {act₂ : Action β}
    (hinner : E' inner₁ inner₂) (hact : Rel L E' V act₁ act₂) :
    Rel L E V (within inner₁ act₁) (within inner₂ act₂) := by
  intro env₁ env₂ henv
  obtain ⟨hresult, -, hevents⟩ := hact inner₁ inner₂ hinner
  exact ⟨hresult, henv, hevents⟩

theorem bind {first₁ : Action α} {first₂ : Action β} {next₁ : α → Action γ} {next₂ : β → Action δ}
    (hfirst : Rel L E V first₁ first₂) (hnext : ∀ a b, V a b → Rel L E W (next₁ a) (next₂ b)) :
    Rel L E W (first₁ >>= next₁) (first₂ >>= next₂) := by
  intro env₁ env₂ henv
  obtain ⟨hresult, henv', hevents⟩ := hfirst env₁ env₂ henv
  rcases h₁ : first₁ env₁ with ⟨result₁, env₁', events₁⟩
  rcases h₂ : first₂ env₂ with ⟨result₂, env₂', events₂⟩
  rw [h₁, h₂] at hresult henv' hevents
  cases hresult with
  | error h =>
    rw [bind_of_error h₁, bind_of_error h₂]
    exact ⟨.error h, henv', hevents⟩
  | ok h =>
    rw [bind_of_ok h₁, bind_of_ok h₂]
    obtain ⟨hresult, henv'', hmore⟩ := hnext _ _ h env₁' env₂' henv'
    exact ⟨hresult, henv'', List.rel_append hevents hmore⟩

/-- Elements that correspond have related values, so the lists have. -/
theorem all {R : γ → δ → Prop} {act₁ : γ → Action α} {act₂ : δ → Action β}
    (h : ∀ c d, R c d → Rel L E V (act₁ c) (act₂ d)) {cs : List γ} {ds : List δ}
    (hlist : List.Forall₂ R cs ds) :
    Rel L E (List.Forall₂ V) (all act₁ cs) (all act₂ ds) := by
  induction hlist with
  | nil => exact pure .nil
  | cons hcd _ ih =>
    exact bind (h _ _ hcd) fun a b hab => bind ih fun as bs habs => pure (.cons hab habs)

theorem last {R : γ → δ → Prop} {act₁ : γ → Action α} {act₂ : δ → Action β}
    (h : ∀ c d, R c d → Rel L E V (act₁ c) (act₂ d)) {cs : List γ} {ds : List δ}
    (hlist : List.Forall₂ R cs ds) {a : α} {b : β} (hab : V a b) :
    Rel L E V (last act₁ a cs) (last act₂ b ds) := by
  induction hlist generalizing a b with
  | nil => exact pure hab
  | cons hcd _ ih => exact bind (h _ _ hcd) fun _ _ hab => ih hab

end Action.Rel

/-- Where one run stops with an error, so does the other one, and the outside is told alike. -/
def Likeness.TellsErrors (L : Likeness) : Prop :=
  ∀ h h', L.halt h h' →
    (∃ e e', h = .error e ∧ h' = .error e' ∧ L.event (.fail e) (.fail e')) ∨
      ∀ e, h ≠ .error e ∧ h' ≠ .error e

theorem Action.Rel.reporting {α β : Type} {L : Likeness} {E : Env → Env → Prop} {V : α → β → Prop}
    {act₁ : Action α} {act₂ : Action β} (hL : L.TellsErrors) (h : Rel L E V act₁ act₂) :
    Rel L E V (reporting act₁) (reporting act₂) := by
  intro env₁ env₂ henv
  obtain ⟨hresult, henv', hevents⟩ := h env₁ env₂ henv
  rcases h₁ : act₁ env₁ with ⟨result₁, env₁', events₁⟩
  rcases h₂ : act₂ env₂ with ⟨result₂, env₂', events₂⟩
  rw [h₁, h₂] at hresult henv' hevents
  simp only [Action.reporting, h₁, h₂]
  cases hresult with
  | ok hvalue => exact ⟨.ok hvalue, henv', hevents⟩
  | @error halt₁ halt₂ hhalt =>
    rcases hL halt₁ halt₂ hhalt with ⟨e, e', rfl, rfl, hevent⟩ | hother
    · exact ⟨.error hhalt, henv', List.rel_append hevents (.cons hevent .nil)⟩
    · -- neither side tells anything
      cases halt₁ with
      | error e => exact absurd rfl (hother e).1
      | crash | outOfFuel =>
        cases halt₂ with
        | error e => exact absurd rfl (hother e).2
        | crash | outOfFuel => exact ⟨.error hhalt, henv', hevents⟩

/-! ## Names and conclusions -/

section Conclusions

variable {L : Likeness} {E : Env → Env → Prop} {V : Value → Value → Prop}

theorem Env.get_rel {F : ScriptError → ScriptError → Prop} {env₁ env₂ : Env} {name : String}
    {span₁ span₂ : Span} (h : Option.Rel V (env₁.lookup name) (env₂.lookup name))
    (hunbound : F (.unbound name span₁) (.unbound name span₂)) :
    ExceptRel F V (env₁.get name span₁) (env₂.get name span₂) := by
  unfold get
  revert h
  cases env₁.lookup name <;> cases env₂.lookup name <;> intro h <;> cases h
  · exact .error hunbound
  · rename_i hvw
    exact .ok hvw

namespace Conclusion

variable {evaluate₁ evaluate₂ : Evaluator} {vs ws : List Value}

theorem run_print_rel (htexts : vs.map Value.text = ws.map Value.text)
    (hlog : ∀ messages, L.event (.log messages) (.log messages)) (hnil : V .nil .nil) :
    (run evaluate₁ .print vs).Rel L E V (run evaluate₂ .print ws) := by
  simp only [run, htexts]
  exact .bind (V := fun _ _ => True) (.emit (hlog _) trivial) fun _ _ _ => .pure hnil

theorem run_arithmetic_rel {compute : List Float → Except ScriptError Float}
    (hnumbers : Builtin.numbers vs = Builtin.numbers ws)
    (herror : ∀ e, (Builtin.numbers ws).bind compute = .error e → L.halt (.error e) (.error e))
    (hnumber : ∀ x, V (.number x) (.number x)) :
    (run evaluate₁ (.arithmetic compute) vs).Rel L E V
      (run evaluate₂ (.arithmetic compute) ws) := by
  simp only [run, hnumbers]
  refine .bind (V := Eq) (.ofExcept ?_) fun x y hxy => .pure (hxy ▸ hnumber x)
  cases h : (Builtin.numbers ws).bind compute with
  | ok x => exact .ok rfl
  | error e => exact .error (herror e h)

/-- Whether a name may be declared has to be the same on both sides. -/
theorem run_declare_rel {name : String}
    (hbinds : ∀ env₁ env₂, E env₁ env₂ →
      Frame.binds env₁.top name = Frame.binds env₂.top name)
    (hassign : ∀ env₁ env₂, E env₁ env₂ →
      E (env₁.assign name (vs.headD .nil)) (env₂.assign name (ws.headD .nil)))
    (herror : L.halt (.error (.redeclared name)) (.error (.redeclared name)))
    (hnil : V .nil .nil) :
    (run evaluate₁ (.declare name) vs).Rel L E V (run evaluate₂ (.declare name) ws) := by
  intro env₁ env₂ henv
  rw [run_declare, run_declare]
  simp only [Env.declare, Scope.declare?, hbinds env₁ env₂ henv]
  cases Frame.binds env₂.top name with
  | true => exact ⟨.error herror, henv, .nil⟩
  | false => exact ⟨.ok hnil, hassign env₁ env₂ henv, .nil⟩

end Conclusion

theorem headD_rel {v w : Value} (hvw : V v w) {vs ws : List Value} (h : List.Forall₂ V vs ws) :
    V (vs.headD v) (ws.headD w) := by
  cases h with
  | nil => exact hvw
  | cons h _ => exact h

end Conclusions

/-! ## Runs with enough fuel -/

/-- Where one run is out of fuel, so is the other one. -/
def Likeness.KeepsFuel (L : Likeness) : Prop :=
  ∀ h h', L.halt h h' → (h = .outOfFuel ↔ h' = .outOfFuel)

theorem Likeness.keepsFuel_same : Likeness.same.KeepsFuel := fun _ _ h => by rw [show _ = _ from h]

section Fuel

variable {α β : Type} {L : Likeness} {E : Env → Env → Prop} {V : α → β → Prop}
  {o₁ : Outcome α} {o₂ : Outcome β}

theorem Outcome.Rel.finished_iff (h : o₁.Rel L E V o₂) (hL : L.KeepsFuel) :
    o₁.Finished ↔ o₂.Finished := by
  have hresult := h.result
  unfold Outcome.Finished
  rcases h₁ : o₁.result with halt | a <;> rw [h₁] at hresult
  · obtain ⟨halt', h₂, hhalt⟩ := hresult.of_error_left
    rw [h₂]
    simpa using not_congr (hL _ _ hhalt)
  · obtain ⟨b, h₂, -⟩ := hresult.of_ok_left
    rw [h₂]
    simp

variable {act₁ : Nat → Action α} {act₂ : Nat → Action β} {env₁ env₂ : Env}

theorem finishes_iff_of_rel (hL : L.KeepsFuel)
    (h : ∀ fuel, (act₁ fuel env₁).Rel L E V (act₂ fuel env₂)) :
    Finishes act₁ env₁ ↔ Finishes act₂ env₂ :=
  exists_congr fun fuel => (h fuel).finished_iff hL

/-- Both outcomes are reached with the fuel that one of them needs. -/
theorem EndsWith.rel (hL : L.KeepsFuel) (hact₂ : FuelExtends act₂)
    (h : ∀ fuel, (act₁ fuel env₁).Rel L E V (act₂ fuel env₂)) (h₁ : EndsWith act₁ env₁ o₁)
    (h₂ : EndsWith act₂ env₂ o₂) : o₁.Rel L E V o₂ := by
  obtain ⟨hfin, fuel, rfl⟩ := h₁
  have h₂' : EndsWith act₂ env₂ (act₂ fuel env₂) := ⟨((h fuel).finished_iff hL).mp hfin, fuel, rfl⟩
  rw [h₂.unique hact₂ h₂']
  exact h fuel

end Fuel

end SnapLisp
