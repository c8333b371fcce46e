import SnapLisp.Proofs.Evaluation.Fuel

/-!
# Actions that settle

An action that needs fuel settles if some amount of it is enough and whatever it yields meets a
condition. The rules follow the way actions are put together; they never ask how much fuel.
-/

namespace SnapLisp

/-- Some amount of fuel is enough, and a value and the environment left with it meet `post`. -/
structure Settles {α : Type} (act : Nat → Action α) (env : Env) (post : α → Env → Prop) : Prop where
  finishes : Finishes act env
  yields : ∀ a env', Yields act env a env' → post a env'

namespace Settles

variable {α β : Type} {env : Env} {post : α → Env → Prop}

/-- Where the fuel makes no difference there is one outcome to look at. -/
theorem of_eq {act : Nat → Action α} {o : Outcome α} (h : ∀ fuel, act fuel env = o)
    (hfin : o.Finished) (hpost : ∀ a, o.result = .ok a → post a o.env) :
    Settles act env post := by
  refine ⟨⟨0, by rwa [h]⟩, ?_⟩
  rintro a env' ⟨fuel, events, hyield⟩
  have ho : o = ⟨.ok a, env', events⟩ := (h fuel).symm.trans hyield
  rw [ho] at hpost
  exact hpost a rfl

theorem pure {a : α} (h : post a env) : Settles (fun _ => pure a) env post := by
  refine of_eq (fun _ => rfl) (fun hout => nomatch hout) fun b heq => ?_
  cases heq
  exact h

theorem fail (e : ScriptError) : Settles (fun _ => Action.fail e) env post :=
  of_eq (fun _ => rfl) (fun hout => by cases hout) fun _ heq => by cases heq

theorem ofExcept {e : Except ScriptError α} (h : ∀ a, e = .ok a → post a env) :
    Settles (fun _ => Action.ofExcept e) env post := by
  cases e with
  | error e => exact fail e
  | ok a => exact pure (h a rfl)

/-- What needs one more unit of fuel than something that settles does so too. -/
theorem succ {act : Nat → Action α} (hzero : act 0 = Action.halt .outOfFuel)
    (h : Settles (fun fuel => act (fuel + 1)) env post) : Settles act env post := by
  obtain ⟨⟨fuel, hfin⟩, hyields⟩ := h
  refine ⟨⟨fuel + 1, hfin⟩, ?_⟩
  rintro a env' ⟨_ | fuel, events, hyield⟩
  · rw [hzero] at hyield
    cases hyield
  · exact hyields a env' ⟨fuel, events, hyield⟩

/-- The fuel that is enough for both parts is the larger one. -/
theorem bind {first : Nat → Action α} {next : Nat → α → Action β} {post' : β → Env → Prop}
    (hfirst : FuelExtends first) (hnext : ∀ a, FuelExtends (next · a)) (h : Settles first env post)
    (h' : ∀ a env', post a env' → Settles (next · a) env' post') :
    Settles (fun fuel => first fuel >>= next fuel) env post' := by
  constructor
  · obtain ⟨fuel, hfin⟩ := h.finishes
    rcases hvalue : first fuel env with ⟨halt | a, env', events⟩
    · refine ⟨fuel, ?_⟩
      show ((first fuel >>= next fuel) env).Finished
      rw [Action.bind_of_error hvalue]
      rw [hvalue] at hfin
      exact Outcome.finished_of_error hfin
    · obtain ⟨fuel', hfin'⟩ := (h' a env' (h.yields a env' ⟨fuel, events, hvalue⟩)).finishes
      have hfirst' : first (max fuel fuel') env = ⟨.ok a, env', events⟩ :=
        (hfirst fuel _ (by omega) env hfin).trans hvalue
      have hnext' : next (max fuel fuel') a env' = next fuel' a env' :=
        hnext a fuel' _ (by omega) env' hfin'
      refine ⟨max fuel fuel', ?_⟩
      show ((first (max fuel fuel') >>= next (max fuel fuel')) env).Finished
      rw [Action.bind_of_ok hfirst', hnext']
      exact hfin'
  · rintro b env'' ⟨fuel, events, hyield⟩
    obtain ⟨a, env', events₁, events₂, ha, hb, -⟩ := Action.bind_eq_ok hyield
    exact (h' a env' (h.yields a env' ⟨fuel, events₁, ha⟩)).yields b env'' ⟨fuel, events₂, hb⟩

theorem within {inner : Env} {act : Nat → Action α}
    (h : Settles act inner fun a _ => post a env) :
    Settles (fun fuel => Action.within inner (act fuel)) env post := by
  obtain ⟨⟨fuel, hfin⟩, hyields⟩ := h
  refine ⟨⟨fuel, hfin⟩, ?_⟩
  rintro a env' ⟨fuel, events, hyield⟩
  replace hyield : Action.within inner (act fuel) env = ⟨.ok a, env', events⟩ := hyield
  rcases hact : act fuel inner with ⟨result, inner', events'⟩
  rw [Action.within_apply, hact] at hyield
  cases hyield
  exact hyields a inner' ⟨fuel, _, hact⟩

/-! ## Lists -/

section Lists

variable {act : Nat → α → Action β} {inv : Env → Prop} {post : β → Prop}

/-- If each element settles wherever an invariant holds, and keeps it, so does the list. -/
theorem all (hact : ∀ a, FuelExtends (act · a)) {as : List α}
    (h : ∀ a ∈ as, ∀ env, inv env → Settles (act · a) env fun b env' => post b ∧ inv env')
    (henv : inv env) :
    Settles (fun fuel => Action.all (act fuel) as) env fun bs env' =>
      (bs.length = as.length ∧ ∀ b ∈ bs, post b) ∧ inv env' := by
  induction as generalizing env with
  | nil => exact pure ⟨⟨rfl, by simp⟩, henv⟩
  | cons a rest ih =>
    have hrest : ∀ env', inv env' → _ := fun env' => ih fun a ha => h a (.tail _ ha)
    refine bind (hact a) (fun b => ?_) (h a (.head _) env henv) fun b env₁ hb => ?_
    · exact (FuelExtends.all hact rest).bind fun _ _ _ _ => .refl _
    · refine bind (.all hact rest) (fun _ _ _ _ => .refl _) (hrest env₁ hb.2)
        fun bs env₂ hbs => pure ⟨⟨?_, ?_⟩, hbs.2⟩
      · simp [hbs.1.1]
      · simpa using ⟨hb.1, hbs.1.2⟩

theorem last (hact : ∀ a, FuelExtends (act · a)) {as : List α} {value : β}
    (h : ∀ a ∈ as, ∀ env, inv env → Settles (act · a) env fun b env' => post b ∧ inv env')
    (hvalue : post value) (henv : inv env) :
    Settles (fun fuel => Action.last (act fuel) value as) env fun b env' => post b ∧ inv env' := by
  induction as generalizing env value with
  | nil => exact pure ⟨hvalue, henv⟩
  | cons a rest ih =>
    refine bind (hact a) (fun b => ?_) (h a (.head _) env henv) fun b env₁ hb => ?_
    · exact fun _ _ hle => .last (fun a => hact a _ _ hle) b rest
    · exact ih (fun a ha => h a (.tail _ ha)) hb.1 hb.2

end Lists

end Settles

end SnapLisp
