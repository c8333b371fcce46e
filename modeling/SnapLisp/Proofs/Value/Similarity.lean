import Mathlib.Data.List.Forall2
import SnapLisp.Proofs.Form.Leaves
import SnapLisp.Proofs.Value.Outline

/-!
# Values that differ in what no name reaches

A closure owns a whole scope, but its body can reach only what the names in it stand for.
`Value.Similar` compares closures by that alone. `Env.Agree` is the same for environments and a
list of names; it also asks whether the top frames bind the same of these names, which decides what
may still be declared.
-/

namespace SnapLisp

/-- The same value, but for what the scopes of closures give to names that do not occur in the
body. -/
inductive Value.Similar : Value → Value → Prop where
  | number (x : Float) : Similar (.number x) (.number x)
  | nil : Similar .nil .nil
  | list {items₁ items₂ : List Value} :
    List.Forall₂ Similar items₁ items₂ → Similar (.list items₁) (.list items₂)
  | builtin (op : Builtin) : Similar (.builtin op) (.builtin op)
  | closure {params : List String} {body : List Form} {scope₁ scope₂ : Env} :
    (∀ name ∈ Form.symbolsAll body, Option.Rel Similar (scope₁.lookup name) (scope₂.lookup name)) →
      Similar (.closure params body scope₁) (.closure params body scope₂)

/-- The names resolve to similar values or to none, and the top frames bind the same of them. -/
structure Env.Agree (names : List String) (env₁ env₂ : Env) : Prop where
  lookup : ∀ name ∈ names, Option.Rel Value.Similar (env₁.lookup name) (env₂.lookup name)
  binds : ∀ name ∈ names, Frame.binds env₁.top name = Frame.binds env₂.top name

namespace Value.Similar

theorem refl (v : Value) : Similar v v := by
  induction v using Value.induction with
  | number x => exact .number x
  | nil => exact .nil
  | builtin op => exact .builtin op
  | list items ih => exact .list (List.forall₂_same.mpr ih)
  | closure params body scope ih =>
    refine .closure fun name _ => ?_
    cases h : scope.lookup name with
    | none => exact .none
    | some value => exact .some (ih name value h)

theorem outline {v w : Value} (h : Similar v w) : SameOutline v w := by
  induction v using Value.induction generalizing w with
  | number x => cases h; exact .number x
  | nil => cases h; exact .nil
  | builtin op => cases h; exact .builtin op
  | closure params body scope _ => cases h; exact .closure params
  | list items ih =>
    cases h with
    | list hitems => exact .list (sameOutline_all hitems fun v hv _ => ih v hv)

theorem text_eq {v w : Value} (h : Similar v w) : v.text = w.text := h.outline.text_eq

theorem outlines {vs ws : List Value} (h : List.Forall₂ Similar vs ws) :
    List.Forall₂ SameOutline vs ws :=
  h.imp fun _ _ => outline

end Value.Similar

namespace Env.Agree

variable {names : List String} {env₁ env₂ : Env}

theorem refl (names : List String) (env : Env) : Agree names env env := by
  refine ⟨fun name _ => ?_, fun _ _ => rfl⟩
  cases env.lookup name with
  | none => exact .none
  | some value => exact .some (.refl value)

/-- Binding similar values to a name keeps environments in agreement. -/
theorem assign (h : Agree names env₁ env₂) (name : String) {v w : Value} (hvw : v.Similar w) :
    Agree names (env₁.assign name v) (env₂.assign name w) := by
  constructor
  · intro other hother
    by_cases heq : other = name
    · rw [heq, Scope.lookup_assign_self, Scope.lookup_assign_self]
      exact .some hvw
    · rw [Scope.lookup_assign_of_ne _ _ heq, Scope.lookup_assign_of_ne _ _ heq]
      exact h.lookup other hother
  · intro other hother
    simp only [Scope.assign, Frame.binds_insert, h.binds other hother]

theorem assignAll (h : Agree names env₁ env₂) (params : List String) {vs ws : List Value}
    (hvs : List.Forall₂ Value.Similar vs ws) :
    Agree names (env₁.assignAll (params.zip vs)) (env₂.assignAll (params.zip ws)) := by
  induction hvs generalizing params env₁ env₂ with
  | nil => simpa [Scope.assignAll] using h
  | cons hvw _ ih =>
    cases params with
    | nil => simpa [Scope.assignAll] using h
    | cons param params => exact ih (h.assign param hvw) params

/-- Calls of similar closures with similar arguments start from environments in agreement. -/
theorem callEnv {params : List String} {scope₁ scope₂ : Env}
    (h : ∀ name ∈ names, Option.Rel Value.Similar (scope₁.lookup name) (scope₂.lookup name))
    {vs ws : List Value} (hvs : List.Forall₂ Value.Similar vs ws) :
    Agree names (Closure.callEnv scope₁ params vs) (Closure.callEnv scope₂ params ws) := by
  have hpush : Agree names scope₁.push scope₂.push := by
    refine ⟨fun name hname => ?_, fun _ _ => rfl⟩
    rw [Scope.lookup_push, Scope.lookup_push]
    exact h name hname
  exact hpush.assignAll params hvs

end Env.Agree

end SnapLisp
