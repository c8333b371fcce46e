import Mathlib.Data.Set.Function
import SnapLisp.Proofs.Scope.Bindings

/-!
# Scopes under other names

`Scope.rename` gives every binding another name, and another value, and leaves it where it is. As
long as different names stay different, names that are renamed along with a scope mean what they
meant before (`Scope.lookup_rename`), and whatever is done to the scope may be done before or after.
-/

namespace SnapLisp

variable {α β : Type} {r : String → String} {f : α → β} {names : Set String} {name : String}

/-- The same bindings in the same order, each with its new name and value. -/
def Frame.rename (r : String → String) (f : α → β) (frame : Frame α) : Frame β :=
  frame.map (Prod.map r f)

/-- The same frames in the same order, with new names and values. -/
def Scope.rename (r : String → String) (f : α → β) (s : Scope α) : Scope β :=
  ⟨Frame.rename r f s.top, s.outer.map (Frame.rename r f)⟩

/-- All names that the frames bind are among the given ones. -/
abbrev Scope.KeysIn (names : Set String) (s : Scope α) : Prop := s.EachBinding (·.1 ∈ names)

/-! ## Frames -/

namespace Frame

variable {frame : Frame α}

theorem lookup_rename (hr : Set.InjOn r names) (hframe : ∀ binding ∈ frame, binding.1 ∈ names)
    (hname : name ∈ names) : (rename r f frame).lookup (r name) = (frame.lookup name).map f := by
  induction frame with
  | nil => rfl
  | cons binding rest ih =>
    obtain ⟨key, value⟩ := binding
    obtain ⟨hkey, hrest⟩ := List.forall_mem_cons.mp hframe
    by_cases h : name = key
    · subst h
      simp [rename]
    · have hne : r name ≠ r key := fun heq => h (hr hname hkey heq)
      rw [List.lookup_cons, beq_false_of_ne h]
      show ((r key, f value) :: rename r f rest).lookup (r name) = _
      rw [List.lookup_cons, beq_false_of_ne hne]
      exact ih hrest

theorem binds_rename (hr : Set.InjOn r names) (hframe : ∀ binding ∈ frame, binding.1 ∈ names)
    (hname : name ∈ names) : binds (rename r f frame) (r name) = binds frame name := by
  rw [binds, binds, lookup_rename hr hframe hname, Option.isSome_map]

theorem insert_rename (hr : Set.InjOn r names) (hframe : ∀ binding ∈ frame, binding.1 ∈ names)
    (hname : name ∈ names) (value : α) :
    insert (r name) (f value) (rename r f frame) = rename r f (insert name value frame) := by
  induction frame with
  | nil => rfl
  | cons binding rest ih =>
    obtain ⟨key, old⟩ := binding
    obtain ⟨hkey, hrest⟩ := List.forall_mem_cons.mp hframe
    show insert (r name) (f value) ((r key, f old) :: rename r f rest) = _
    by_cases h : key = name
    · rw [insert, insert, if_pos h, if_pos (congrArg r h)]
      rfl
    · have hne : r key ≠ r name := fun heq => h (hr hkey hname heq)
      rw [insert, insert, if_neg h, if_neg hne, ih hrest]
      rfl

theorem findSome_rename (hr : Set.InjOn r names) {frames : List (Frame α)}
    (hframes : ∀ frame ∈ frames, ∀ binding ∈ frame, binding.1 ∈ names) (hname : name ∈ names) :
    (frames.map (rename r f)).findSome? (·.lookup (r name)) =
      (frames.findSome? (·.lookup name)).map f := by
  induction frames with
  | nil => rfl
  | cons frame rest ih =>
    obtain ⟨hframe, hrest⟩ := List.forall_mem_cons.mp hframes
    rw [List.map_cons, List.findSome?_cons, List.findSome?_cons, lookup_rename hr hframe hname]
    cases frame.lookup name with
    | none => exact ih hrest
    | some value => rfl

end Frame

/-! ## Scopes -/

namespace Scope

variable {s : Scope α}

theorem push_rename (s : Scope α) : (s.rename r f).push = s.push.rename r f := rfl

/-- **Lookup.** The renamed name has the renamed value. -/
theorem lookup_rename (hr : Set.InjOn r names) (hs : s.KeysIn names) (hname : name ∈ names) :
    (s.rename r f).lookup (r name) = (s.lookup name).map f :=
  Frame.findSome_rename hr hs hname

theorem assign_rename (hr : Set.InjOn r names) (hs : s.KeysIn names) (hname : name ∈ names)
    (value : α) : (s.rename r f).assign (r name) (f value) = (s.assign name value).rename r f := by
  have htop := Frame.insert_rename (f := f) hr (hs s.top (.head _)) hname value
  rw [assign, rename, htop]
  rfl

theorem assignAll_rename (hr : Set.InjOn r names) (hs : s.KeysIn names)
    {bindings : List (String × α)} (hbindings : ∀ binding ∈ bindings, binding.1 ∈ names) :
    (s.rename r f).assignAll (bindings.map (Prod.map r f)) =
      (s.assignAll bindings).rename r f := by
  induction bindings generalizing s with
  | nil => rfl
  | cons binding rest ih =>
    obtain ⟨hfirst, hrest⟩ := List.forall_mem_cons.mp hbindings
    have hassign := assign_rename (f := f) hr hs hfirst binding.2
    show ((s.rename r f).assign (r binding.1) (f binding.2)).assignAll _ = _
    rw [hassign]
    exact ih (hs.assign hfirst) hrest

end Scope

end SnapLisp
