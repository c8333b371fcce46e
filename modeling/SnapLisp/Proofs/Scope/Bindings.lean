import SnapLisp.Scope

/-!
# All that a scope binds

`Scope.EachBinding` says something of every binding of a scope, also of those that a binding further
in hides, and `Scope.All` of every value that a scope binds. Whatever is done to a scope keeps
both, if it is done with names and values that have the property.
-/

namespace SnapLisp

variable {α : Type} {P Q : α → Prop}

/-- What a binding is put in place of is gone, and nothing else is new. -/
theorem Frame.mem_insert {frame : Frame α} {name : String} {value : α} {binding : String × α}
    (h : binding ∈ frame.insert name value) : binding = (name, value) ∨ binding ∈ frame := by
  induction frame with
  | nil => exact .inl (List.mem_singleton.mp h)
  | cons first rest ih =>
    obtain ⟨key, old⟩ := first
    rw [insert] at h
    split at h
    · exact (List.mem_cons.mp h).imp id (.tail _)
    · rcases List.mem_cons.mp h with rfl | h
      · exact .inr (.head _)
      · exact (ih h).imp id (.tail _)

namespace Scope

/-- All values that the scope binds, hidden or not, have the property. -/
def All (P : α → Prop) (s : Scope α) : Prop := ∀ frame ∈ s.frames, ∀ binding ∈ frame, P binding.2

/-- A name stands for something that one of the frames binds. -/
theorem exists_binding_of_lookup {s : Scope α} {name : String} {value : α}
    (h : s.lookup name = some value) : ∃ frame ∈ s.frames, (name, value) ∈ frame := by
  obtain ⟨frame, hframe, hlookup⟩ := List.exists_of_findSome?_eq_some h
  obtain ⟨front, back, rfl, -⟩ := List.lookup_eq_some_iff.mp hlookup
  exact ⟨_, hframe, by simp⟩

/-- All bindings of the scope, hidden or not, have the property. -/
def EachBinding (B : String × α → Prop) (s : Scope α) : Prop :=
  ∀ frame ∈ s.frames, ∀ binding ∈ frame, B binding

namespace EachBinding

variable {s : Scope α} {B : String × α → Prop}

theorem empty : (empty : Scope α).EachBinding B := by
  intro frame hframe binding hbinding
  obtain rfl := List.mem_singleton.mp hframe
  cases hbinding

theorem push (h : s.EachBinding B) : s.push.EachBinding B := by
  intro frame hframe
  rcases List.mem_cons.mp hframe with rfl | hframe
  · exact fun _ hbinding => nomatch hbinding
  · exact h frame hframe

theorem assign (h : s.EachBinding B) {name : String} {value : α} (hnew : B (name, value)) :
    (s.assign name value).EachBinding B := by
  intro frame hframe binding hbinding
  rcases List.mem_cons.mp hframe with rfl | hframe
  · rcases Frame.mem_insert hbinding with rfl | hbinding
    · exact hnew
    · exact h s.top (.head _) binding hbinding
  · exact h frame (.tail _ hframe) binding hbinding

theorem assignAll (h : s.EachBinding B) {bindings : List (String × α)}
    (hbindings : ∀ binding ∈ bindings, B binding) : (s.assignAll bindings).EachBinding B := by
  induction bindings generalizing s with
  | nil => exact h
  | cons binding rest ih =>
    obtain ⟨hfirst, hrest⟩ := List.forall_mem_cons.mp hbindings
    exact ih (h.assign hfirst) hrest

end EachBinding

namespace All

variable {s : Scope α}

theorem lookup (h : s.All P) {name : String} {value : α} (hname : s.lookup name = some value) :
    P value := by
  obtain ⟨frame, hframe, hbinding⟩ := exists_binding_of_lookup hname
  exact h frame hframe _ hbinding

theorem mono (h : s.All P) (hPQ : ∀ a, P a → Q a) : s.All Q :=
  fun frame hframe binding hbinding => hPQ _ (h frame hframe binding hbinding)

theorem empty : (empty : Scope α).All P := EachBinding.empty

theorem push (h : s.All P) : s.push.All P := EachBinding.push h

theorem assign (h : s.All P) (name : String) {value : α} (hvalue : P value) :
    (s.assign name value).All P :=
  EachBinding.assign (B := fun binding => P binding.2) h hvalue

theorem assignAll (h : s.All P) {bindings : List (String × α)}
    (hbindings : ∀ binding ∈ bindings, P binding.2) : (s.assignAll bindings).All P :=
  EachBinding.assignAll (B := fun binding => P binding.2) h hbindings

end All

end Scope

end SnapLisp
