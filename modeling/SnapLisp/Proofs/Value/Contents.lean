import SnapLisp.Eval.Apply
import SnapLisp.Proofs.Scope.Bindings

/-!
# What stands in a value

A list holds its elements, and a closure all that the frames of its scope bind. `Value.Contains`
goes down through both to any depth. `Value.Closures` says something of every closure that stands
in a value; whoever looks up, collects, binds or hands over such values comes to such values again.
-/

namespace SnapLisp

/-- The second value is the first one, or stands in it: among the elements of a list or among what
the scope of a closure binds, at whatever depth. -/
inductive Value.Contains : Value → Value → Prop where
  | self (v : Value) : Contains v v
  | element {items : List Value} {item w : Value} :
      item ∈ items → Contains item w → Contains (.list items) w
  | bound {params : List String} {body : List Form} {scope : Env} {frame : Frame Value}
      {binding : String × Value} {w : Value} :
      frame ∈ scope.frames → binding ∈ frame → Contains binding.2 w →
        Contains (.closure params body scope) w

/-- The value stands in something that a frame binds. -/
def Env.Contains (env : Env) (w : Value) : Prop :=
  ∃ frame ∈ env.frames, ∃ binding ∈ frame, binding.2.Contains w

/-- Every closure that stands in the value has the property. -/
def Value.Closures (P : List String → List Form → Env → Prop) (v : Value) : Prop :=
  ∀ params body scope, v.Contains (.closure params body scope) → P params body scope

variable {P Q : List String → List Form → Env → Prop}

namespace Value.Closures

theorem number (x : Float) : (number x).Closures P := fun _ _ _ h => nomatch h

theorem nil : nil.Closures P := fun _ _ _ h => nomatch h

theorem builtin (op : Builtin) : (builtin op).Closures P := fun _ _ _ h => nomatch h

theorem list {items : List Value} (h : ∀ item ∈ items, item.Closures P) :
    (list items).Closures P := by
  intro params body scope hcontains
  cases hcontains with
  | element hitem hrest => exact h _ hitem params body scope hrest

theorem closure {params : List String} {body : List Form} {scope : Env}
    (h : P params body scope) (hscope : scope.All (Closures P)) :
    (closure params body scope).Closures P := by
  intro params' body' scope' hcontains
  cases hcontains with
  | self => exact h
  | bound hframe hbinding hrest => exact hscope _ hframe _ hbinding params' body' scope' hrest

theorem of_closure {params : List String} {body : List Form} {scope : Env}
    (h : (Value.closure params body scope).Closures P) :
    P params body scope ∧ scope.All (Closures P) :=
  ⟨h params body scope (.self _), fun _ hframe _ hbinding params' body' scope' hrest =>
    h params' body' scope' (.bound hframe hbinding hrest)⟩

theorem mono {v : Value} (h : v.Closures P)
    (hPQ : ∀ params body scope, P params body scope → Q params body scope) : v.Closures Q :=
  fun params body scope hcontains => hPQ _ _ _ (h params body scope hcontains)

/-- A call starts from the scope of the closure and the values of the arguments. -/
theorem callEnv {scope : Env} (h : scope.All (Closures P)) (params : List String)
    {values : List Value} (hvalues : ∀ v ∈ values, v.Closures P) :
    (Closure.callEnv scope params values).All (Closures P) :=
  h.push.assignAll fun _ hbinding => hvalues _ (List.of_mem_zip hbinding).2

end Value.Closures

theorem Env.all_closures_iff {env : Env} :
    env.All (Value.Closures P) ↔
      ∀ params body scope, env.Contains (.closure params body scope) → P params body scope := by
  constructor
  · rintro h params body scope ⟨frame, hframe, binding, hbinding, hcontains⟩
    exact h frame hframe binding hbinding params body scope hcontains
  · intro h frame hframe binding hbinding params body scope hcontains
    exact h params body scope ⟨frame, hframe, binding, hbinding, hcontains⟩

/-- The operators are no closures, so the standard environment holds none. -/
theorem Env.standard_all_closures : standard.All (Value.Closures P) := by
  refine Scope.All.empty.assignAll fun binding hbinding => ?_
  obtain ⟨op, -, rfl⟩ := List.mem_map.mp hbinding
  exact .builtin op

end SnapLisp
