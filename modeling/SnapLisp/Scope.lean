/-!
# Scopes

A `Frame` binds names to values; a `Scope` is a stack of frames that is never empty, since its top
frame is a field of its own. A name means what the innermost frame that binds it says
(`Scope.lookup`). Only the top frame is ever written to, and opening a frame and leaving it again
gives the scope back (`Scope.pop?_push`). A scope is a value: whoever keeps one keeps a copy.
-/

namespace SnapLisp

/-- The bindings of one frame, at most one a name. -/
abbrev Frame (α : Type) := List (String × α)

/-- A stack of frames. -/
structure Scope (α : Type) where
  /-- The innermost frame. -/
  top : List (String × α)
  /-- The frames around it, the innermost first. -/
  outer : List (List (String × α))

namespace Frame

variable {α : Type}

/-- Whether a name is bound. -/
def binds (frame : Frame α) (name : String) : Bool := (frame.lookup name).isSome

/-- Binds a name, in place of the binding that it has. -/
def insert (name : String) (value : α) : Frame α → Frame α
  | [] => [(name, value)]
  | (key, old) :: rest =>
    if key = name then (name, value) :: rest else (key, old) :: insert name value rest

theorem lookup_insert_self (frame : Frame α) (name : String) (value : α) :
    (frame.insert name value).lookup name = some value := by
  induction frame with
  | nil => simp [insert]
  | cons binding rest ih =>
    obtain ⟨key, old⟩ := binding
    by_cases h : key = name
    · simp [insert, h]
    · simp [insert, h, List.lookup_cons, ih, beq_false_of_ne (Ne.symm h)]

theorem lookup_insert_of_ne (frame : Frame α) {name other : String} (value : α)
    (h : other ≠ name) : (frame.insert name value).lookup other = frame.lookup other := by
  induction frame with
  | nil => simp [insert, List.lookup_cons, beq_false_of_ne h]
  | cons binding rest ih =>
    obtain ⟨key, old⟩ := binding
    by_cases hk : key = name
    · simp [insert, hk, List.lookup_cons, beq_false_of_ne h]
    · simp [insert, hk, List.lookup_cons, ih]

theorem binds_insert (frame : Frame α) (name other : String) (value : α) :
    (frame.insert name value).binds other = (other == name || frame.binds other) := by
  by_cases h : other = name
  · simp [binds, h, lookup_insert_self]
  · simp [binds, h, lookup_insert_of_ne]

end Frame

namespace Scope

variable {α : Type}

/-- The scope of one frame that binds nothing. -/
def empty : Scope α := ⟨[], []⟩

/-- All frames, the innermost first. -/
def frames (s : Scope α) : List (Frame α) := s.top :: s.outer

/-- The number of frames. -/
def depth (s : Scope α) : Nat := s.frames.length

/-- Opens a frame. -/
def push (s : Scope α) : Scope α := ⟨[], s.frames⟩

/-- Leaves the innermost frame, unless it is the only one. -/
def pop? (s : Scope α) : Option (Scope α) :=
  match s.outer with
  | [] => none
  | frame :: outer => some ⟨frame, outer⟩

/-- The value that a name has in the innermost frame that binds it. -/
def lookup (s : Scope α) (name : String) : Option α := s.frames.findSome? (·.lookup name)

/-- Binds a name in the top frame, in place of the binding that it has there. -/
def assign (s : Scope α) (name : String) (value : α) : Scope α :=
  ⟨Frame.insert name value s.top, s.outer⟩

/-- Binds a name in the top frame, unless it is bound there. Frames around it do not matter. -/
def declare? (s : Scope α) (name : String) (value : α) : Option (Scope α) :=
  if Frame.binds s.top name then none else some (s.assign name value)

/-- Binds the names of a list one after the other; of two equal names the later one counts. -/
def assignAll (s : Scope α) (bindings : List (String × α)) : Scope α :=
  bindings.foldl (fun s (name, value) => s.assign name value) s

@[simp] theorem pop?_push (s : Scope α) : s.push.pop? = some s := rfl

@[simp] theorem outer_assign (s : Scope α) (name : String) (value : α) :
    (s.assign name value).outer = s.outer := rfl

@[simp] theorem lookup_push (s : Scope α) (name : String) : s.push.lookup name = s.lookup name := by
  simp [lookup, push, frames, List.findSome?_cons]

theorem lookup_assign_self (s : Scope α) (name : String) (value : α) :
    (s.assign name value).lookup name = some value := by
  simp [lookup, frames, assign, Frame.lookup_insert_self]

theorem lookup_assign_of_ne (s : Scope α) {name other : String} (value : α) (h : other ≠ name) :
    (s.assign name value).lookup other = s.lookup other := by
  simp [lookup, frames, assign, List.findSome?_cons, Frame.lookup_insert_of_ne _ _ h]

end Scope

end SnapLisp
