import Mathlib.Data.Set.Insert
import SnapLisp.Proofs.Form.Respanned
import SnapLisp.Proofs.Scope.Pointwise
import SnapLisp.Proofs.Value.Outline

/-!
# Values that differ in the spans of their code

A closure holds forms, and forms hold spans. `Value.Respanned ways` relates two values that are
alike in everything else, however deep the closures are nested in lists and in the scopes of other
closures. How the spans in one body differ is one of the given `ways`; another body may use another
one. `Env.Respanned` is the same for environments, and `ScriptError.Respanned` for errors.
-/

namespace SnapLisp

/-- The same value, but for the spans in the bodies of closures: those of one body differ in one of
the given ways. -/
inductive Value.Respanned (ways : Set (Span → Span → Prop)) : Value → Value → Prop where
  | number (x : Float) : Respanned ways (.number x) (.number x)
  | nil : Respanned ways .nil .nil
  | list {items items' : List Value} :
      List.Forall₂ (Respanned ways) items items' → Respanned ways (.list items) (.list items')
  | builtin (op : Builtin) : Respanned ways (.builtin op) (.builtin op)
  | closure (params : List String) {R : Span → Span → Prop} {body body' : List Form}
      {scope scope' : Env} :
      R ∈ ways → List.Forall₂ (Form.Respanned R) body body' →
        Scope.Rel (Respanned ways) scope scope' →
          Respanned ways (.closure params body scope) (.closure params body' scope')

/-- The same names in the same frames, bound to values that differ in spans only. -/
abbrev Env.Respanned (ways : Set (Span → Span → Prop)) : Env → Env → Prop :=
  Scope.Rel (Value.Respanned ways)

/-- The same error of a run, but for the span that is to blame. -/
inductive ScriptError.Respanned (R : Span → Span → Prop) : ScriptError → ScriptError → Prop where
  | unbound (name : String) {s s' : Span} :
      R s s' → Respanned R (.unbound name s) (.unbound name s')
  | illFormed {s s' : Option Span} :
      Option.Rel R s s' → Respanned R (.illFormed s) (.illFormed s')
  | notProcedure {s s' : Option Span} :
      Option.Rel R s s' → Respanned R (.notProcedure s) (.notProcedure s')
  | illFormedParameter (message : String) {s s' : Span} :
      R s s' → Respanned R (.illFormedParameter message s) (.illFormedParameter message s')
  | illFormedSpecial (form : String) {s s' : Option Span} :
      Option.Rel R s s' → Respanned R (.illFormedSpecial form s) (.illFormedSpecial form s')
  | spanless {e : ScriptError} : e.span = none → Respanned R e e

/-- What is wrong is told in the same words. -/
theorem ScriptError.Respanned.message_eq {R : Span → Span → Prop} {e e' : ScriptError}
    (h : Respanned R e e') : e.message = e'.message := by
  cases h <;> rfl

theorem ScriptError.Respanned.mono {R R' : Span → Span → Prop} (hR : ∀ s s', R s s' → R' s s')
    {e e' : ScriptError} (h : Respanned R e e') : Respanned R' e e' := by
  have hoption {s s' : Option Span} (h : Option.Rel R s s') : Option.Rel R' s s' := by
    cases h with
    | some h => exact .some (hR _ _ h)
    | none => exact .none
  cases h with
  | unbound name h => exact .unbound name (hR _ _ h)
  | illFormed h => exact .illFormed (hoption h)
  | notProcedure h => exact .notProcedure (hoption h)
  | illFormedParameter message h => exact .illFormedParameter message (hR _ _ h)
  | illFormedSpecial form h => exact .illFormedSpecial form (hoption h)
  | spanless h => exact .spanless h

namespace Value

variable {ways : Set (Span → Span → Prop)}

/-- Where spans may stay, a value differs in no more from itself. -/
theorem respanned_refl {R : Span → Span → Prop} (hways : R ∈ ways) (hR : ∀ s, R s s) (v : Value) :
    Respanned ways v v := by
  induction v using induction_bindings with
  | number x => exact .number x
  | nil => exact .nil
  | builtin op => exact .builtin op
  | list items ih => exact .list (List.forall₂_same.mpr ih)
  | closure params body scope ih =>
    exact .closure params hways (List.forall₂_same.mpr fun f _ => f.respanned_refl hR) (.refl_of ih)

namespace Respanned

theorem outline {v w : Value} (h : Respanned ways v w) : SameOutline v w := by
  induction v using Value.induction generalizing w with
  | number x => cases h; exact .number x
  | nil => cases h; exact .nil
  | builtin op => cases h; exact .builtin op
  | closure params body scope _ => cases h; exact .closure params
  | list items ih =>
    cases h with
    | list hitems => exact .list (sameOutline_all hitems fun v hv _ => ih v hv)

theorem text_eq {v w : Value} (h : Respanned ways v w) : v.text = w.text := h.outline.text_eq

theorem outlines {vs ws : List Value} (h : List.Forall₂ (Respanned ways) vs ws) :
    List.Forall₂ SameOutline vs ws :=
  h.imp fun _ _ => outline

end Respanned

end Value

/-- Calls of closures that differ in spans only start from environments that do. -/
theorem Env.respanned_callEnv {ways : Set (Span → Span → Prop)} {scope scope' : Env}
    (h : Env.Respanned ways scope scope') (params : List String) {vs ws : List Value}
    (hvs : List.Forall₂ (Value.Respanned ways) vs ws) :
    Env.Respanned ways (Closure.callEnv scope params vs) (Closure.callEnv scope' params ws) :=
  h.push.assignAll params hvs

theorem Env.respanned_refl {ways : Set (Span → Span → Prop)} {R : Span → Span → Prop}
    (hways : R ∈ ways) (hR : ∀ s, R s s) (env : Env) : Env.Respanned ways env env :=
  .refl_of fun _ _ binding _ => binding.2.respanned_refl hways hR

end SnapLisp
