import Mathlib.Data.List.Forall2
import SnapLisp.Scope

/-!
# Scopes that bind the same names

`Scope.Rel` relates two scopes frame by frame and binding by binding: the names are the same, and
the values stand in a given relation. Whatever is done to both scopes alike keeps it.
-/

namespace SnapLisp

variable {α β : Type} {V : α → β → Prop}

/-- The same name, with values that stand in a relation. -/
inductive Binding.Rel {α β : Type} (V : α → β → Prop) : String × α → String × β → Prop where
  | mk (name : String) {v : α} {w : β} : V v w → Rel V (name, v) (name, w)

/-- The same bindings one by one, with values that stand in a relation. -/
inductive Scope.Rel {α β : Type} (V : α → β → Prop) : Scope α → Scope β → Prop where
  | mk {top : Frame α} {top' : Frame β} {outer : List (Frame α)} {outer' : List (Frame β)} :
      List.Forall₂ (Binding.Rel V) top top' →
        List.Forall₂ (List.Forall₂ (Binding.Rel V)) outer outer' → Rel V ⟨top, outer⟩ ⟨top', outer'⟩

namespace Frame

variable {frame : Frame α} {frame' : Frame β}

theorem rel_lookup (h : List.Forall₂ (Binding.Rel V) frame frame') (name : String) :
    Option.Rel V (frame.lookup name) (frame'.lookup name) := by
  induction h with
  | nil => exact .none
  | cons hbinding _ ih =>
    cases hbinding with
    | mk key hvw =>
      rw [List.lookup_cons, List.lookup_cons]
      cases name == key with
      | true => exact .some hvw
      | false => exact ih

theorem binds_eq_of_rel (h : List.Forall₂ (Binding.Rel V) frame frame') (name : String) :
    frame.binds name = frame'.binds name := by
  have hlookup := rel_lookup h name
  rw [binds, binds]
  revert hlookup
  cases frame.lookup name <;> cases frame'.lookup name <;> intro hlookup <;> cases hlookup <;> rfl

theorem rel_findSome {frames : List (Frame α)} {frames' : List (Frame β)}
    (h : List.Forall₂ (List.Forall₂ (Binding.Rel V)) frames frames') (name : String) :
    Option.Rel V (frames.findSome? (·.lookup name)) (frames'.findSome? (·.lookup name)) := by
  induction h with
  | nil => exact .none
  | @cons frame frame' _ _ hframe _ ih =>
    have hlookup := rel_lookup hframe name
    rw [List.findSome?_cons, List.findSome?_cons]
    revert hlookup
    cases frame.lookup name <;> cases frame'.lookup name <;> intro hlookup <;> cases hlookup
    · exact ih
    · rename_i hvw
      exact .some hvw

theorem rel_insert (h : List.Forall₂ (Binding.Rel V) frame frame') (name : String) {v : α} {w : β}
    (hvw : V v w) :
    List.Forall₂ (Binding.Rel V) (frame.insert name v) (frame'.insert name w) := by
  induction h with
  | nil => exact .cons (.mk name hvw) .nil
  | cons hbinding hrest ih =>
    cases hbinding with
    | mk key hold =>
      rw [insert, insert]
      split
      · exact .cons (.mk name hvw) hrest
      · exact .cons (.mk key hold) ih

end Frame

namespace Scope.Rel

variable {s : Scope α} {t : Scope β}

theorem frames (h : Rel V s t) : List.Forall₂ (List.Forall₂ (Binding.Rel V)) s.frames t.frames := by
  cases h with
  | mk htop houter => exact .cons htop houter

theorem lookup (h : Rel V s t) (name : String) :
    Option.Rel V (s.lookup name) (t.lookup name) :=
  Frame.rel_findSome h.frames name

theorem binds_eq (h : Rel V s t) (name : String) :
    Frame.binds s.top name = Frame.binds t.top name := by
  cases h with
  | mk htop _ => exact Frame.binds_eq_of_rel htop name

theorem push (h : Rel V s t) : Rel V s.push t.push := .mk .nil h.frames

theorem assign (h : Rel V s t) (name : String) {v : α} {w : β} (hvw : V v w) :
    Rel V (s.assign name v) (t.assign name w) := by
  cases h with
  | mk htop houter => exact .mk (Frame.rel_insert htop name hvw) houter

theorem assignAll (h : Rel V s t) (names : List String) {vs : List α} {ws : List β}
    (hvs : List.Forall₂ V vs ws) :
    Rel V (s.assignAll (names.zip vs)) (t.assignAll (names.zip ws)) := by
  induction hvs generalizing names s t with
  | nil => simpa [Scope.assignAll] using h
  | cons hvw _ ih =>
    cases names with
    | nil => simpa [Scope.assignAll] using h
    | cons name names => exact ih (h.assign name hvw) names

/-- A scope stands in the relation to itself if all values that it binds do. -/
theorem refl_of {V : α → α → Prop} {s : Scope α}
    (h : ∀ frame ∈ s.frames, ∀ binding ∈ frame, V binding.2 binding.2) : Rel V s s := by
  have hframe : ∀ frame ∈ s.frames, List.Forall₂ (Binding.Rel V) frame frame := fun frame hmem =>
    List.forall₂_same.mpr fun binding hbinding => .mk binding.1 (h frame hmem binding hbinding)
  exact .mk (hframe s.top (.head _)) (List.forall₂_same.mpr fun frame hmem =>
    hframe frame (.tail _ hmem))

end Scope.Rel

end SnapLisp
