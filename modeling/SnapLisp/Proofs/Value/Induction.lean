import SnapLisp.Proofs.Scope.Bindings
import SnapLisp.Value

/-!
# Induction over values

A closure contains the values that its scope binds, and a list its elements. Both are smaller than
what contains them, so a property of values may be shown for a value from what is inside it:
`Value.induction_bindings` has a hypothesis for every binding of the scope of a closure, and
`Value.induction` only one for each name that the scope resolves.
-/

namespace SnapLisp

/-- A value that a scope binds is smaller than the scope. -/
theorem Scope.sizeOf_binding_lt {scope : Env} {frame : Frame Value} {binding : String × Value}
    (hframe : frame ∈ scope.frames) (hbinding : binding ∈ frame) :
    sizeOf binding.2 < sizeOf scope := by
  obtain ⟨key, value⟩ := binding
  obtain ⟨top, outer⟩ := scope
  have hlt : sizeOf value < sizeOf frame := by
    have hmem := List.sizeOf_lt_of_mem hbinding
    simp only [Prod.mk.sizeOf_spec] at hmem
    omega
  rcases List.mem_cons.mp hframe with rfl | hframe
  · simp only [Scope.mk.sizeOf_spec]
    omega
  · have : sizeOf frame < sizeOf outer := List.sizeOf_lt_of_mem hframe
    simp only [Scope.mk.sizeOf_spec]
    omega

/-- Induction over values: a property of all elements of a list is one of the list, and a property
of all that a scope binds, hidden or not, is one of the closure that owns it. -/
theorem Value.induction_bindings {motive : Value → Prop} (number : ∀ x, motive (.number x))
    (nil : motive .nil) (list : ∀ items, (∀ item ∈ items, motive item) → motive (.list items))
    (builtin : ∀ op, motive (.builtin op))
    (closure : ∀ params body (scope : Env),
      (∀ frame ∈ scope.frames, ∀ binding ∈ frame, motive binding.2) →
        motive (.closure params body scope)) :
    ∀ v, motive v
  | .number x => number x
  | .nil => nil
  | .list items => list items fun item _ =>
      induction_bindings number nil list builtin closure item
  | .builtin op => builtin op
  | .closure params body scope => closure params body scope fun _ hframe binding hbinding =>
      have := Scope.sizeOf_binding_lt hframe hbinding
      induction_bindings number nil list builtin closure binding.2

/-- Induction over values by what names mean: a property of all values that a scope gives a name is
one of the closure that owns it. -/
theorem Value.induction {motive : Value → Prop} (number : ∀ x, motive (.number x))
    (nil : motive .nil) (list : ∀ items, (∀ item ∈ items, motive item) → motive (.list items))
    (builtin : ∀ op, motive (.builtin op))
    (closure : ∀ params body scope,
      (∀ name value, scope.lookup name = some value → motive value) →
        motive (.closure params body scope)) (v : Value) : motive v := by
  refine induction_bindings number nil list builtin (fun params body scope ih => ?_) v
  refine closure params body scope fun name value h => ?_
  obtain ⟨frame, hframe, hbinding⟩ := Scope.exists_binding_of_lookup h
  exact ih frame hframe (name, value) hbinding

end SnapLisp
