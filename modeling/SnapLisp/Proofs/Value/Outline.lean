import Mathlib.Data.List.Forall2
import SnapLisp.Eval.Apply
import SnapLisp.Proofs.Value.Induction

/-!
# What can be seen of a value

Of a closure nothing shows but the names of its parameters. So two values with the same outline have
the same text, and arithmetic takes them for the same numbers or blames the same type.
-/

namespace SnapLisp.Value

/-- The same value, but for the bodies and scopes of closures. -/
inductive SameOutline : Value → Value → Prop where
  | number (x : Float) : SameOutline (.number x) (.number x)
  | nil : SameOutline .nil .nil
  | list {items items' : List Value} :
      List.Forall₂ SameOutline items items' → SameOutline (.list items) (.list items')
  | builtin (op : Builtin) : SameOutline (.builtin op) (.builtin op)
  | closure (params : List String) {body body' : List Form} {scope scope' : Env} :
      SameOutline (.closure params body scope) (.closure params body' scope')

/-- Lists whose elements correspond have the same outlines as soon as the elements have. -/
theorem sameOutline_all {V : Value → Value → Prop} {vs ws : List Value}
    (h : List.Forall₂ V vs ws) (hvs : ∀ v ∈ vs, ∀ w, V v w → SameOutline v w) :
    List.Forall₂ SameOutline vs ws := by
  induction h with
  | nil => exact .nil
  | cons hvw _ ih => exact .cons (hvs _ (.head _) _ hvw) (ih fun v hv => hvs v (.tail _ hv))

theorem texts_eq_map (vs : List Value) : texts vs = vs.map text := by
  induction vs with
  | nil => rfl
  | cons v vs ih => rw [texts, ih, List.map_cons]

namespace SameOutline

theorem map_text_eq_of {vs ws : List Value} (h : List.Forall₂ SameOutline vs ws)
    (hvs : ∀ v ∈ vs, ∀ w, SameOutline v w → v.text = w.text) : vs.map text = ws.map text := by
  induction h with
  | nil => rfl
  | cons hvw _ ih =>
    rw [List.map_cons, List.map_cons, hvs _ (.head _) _ hvw, ih fun v hv => hvs v (.tail _ hv)]

theorem text_eq {v w : Value} (h : SameOutline v w) : v.text = w.text := by
  induction v using Value.induction generalizing w with
  | number x => cases h; rfl
  | nil => cases h; rfl
  | builtin op => cases h; rfl
  | closure params body scope ih => cases h; rfl
  | list items ih =>
    cases h with
    | list hitems =>
      rw [text, text, texts_eq_map, texts_eq_map, map_text_eq_of hitems fun v hv _ => ih v hv]

theorem map_text_eq {vs ws : List Value} (h : List.Forall₂ SameOutline vs ws) :
    vs.map text = ws.map text :=
  map_text_eq_of h fun _ _ _ => text_eq

/-- Both lists hold the same numbers, and the same type is to blame where a value is none. -/
theorem numbers_eq {vs ws : List Value} (h : List.Forall₂ SameOutline vs ws) :
    Builtin.numbers vs = Builtin.numbers ws := by
  induction h with
  | nil => rfl
  | cons hvw _ ih =>
    cases hvw with
    | number x => rw [Builtin.numbers, Builtin.numbers, ih]
    | nil | list _ | builtin _ | closure _ => rfl

end SameOutline

end SnapLisp.Value
