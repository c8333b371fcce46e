import Mathlib.Data.List.Forall2
import SnapLisp.Eval.Apply

/-!
# Environments and their histories

An `Env.History` is a series of operations on an environment. It is told without any environment
which frames are open after it (`History.openFrames`, each named by the time of its opening) and
what is stored in each of them (`History.stored`). An environment follows its history
(`follows_of_history`): the frames hold what was stored in them, so look-ups and refusals can be
told from the history, and a frame that is left leaves nothing behind.
-/

namespace SnapLisp

namespace Env

/-! ## Histories -/

/-- Something done to an environment from outside. -/
inductive Op where
  | push
  | pop
  | declare (name : String) (value : Value)
  | assign (name : String) (value : Value)

/-- What an operation does. -/
def Op.act : Op → Action Unit
  | .push => do Action.setEnv (← Action.getEnv).push
  | .pop => Closure.leave
  | .declare name value => do
    Action.setEnv (← Action.ofExcept ((← Action.getEnv).declare name value))
  | .assign name value => do Action.setEnv ((← Action.getEnv).assign name value)

/-- Operations one after the other, the latest first. -/
abbrev History := List Op

/-- The environment after all operations of a history. One that fails does not end it. -/
def after (env : Env) : History → Env
  | [] => env
  | op :: earlier => (op.act (env.after earlier)).env

/-- The history of the standard environment: every operator is assigned to its name. -/
def standardHistory : History :=
  (Builtin.all.map fun op => Op.assign op.name (.builtin op)).reverse

namespace History

/-- What is left of the open frames when the innermost one is left, unless it is the only one. -/
def leave : List Nat → List Nat
  | _ :: frame :: frames => frame :: frames
  | frames => frames

/-- The frames that are open after the operations, the innermost first. A frame is named by how
many operations there were when it had been opened; the outermost one was there from the start. -/
def openFrames : History → List Nat
  | [] => [0]
  | .push :: earlier => (earlier.length + 1) :: openFrames earlier
  | .pop :: earlier => leave (openFrames earlier)
  | .declare .. :: earlier | .assign .. :: earlier => openFrames earlier

/-- The innermost open frame. -/
def current (h : History) : Option Nat := h.openFrames.head?

/-- The value last stored under a name in a frame, while that was the innermost one. A declaration
stores a value only where there is none. -/
def stored : History → Nat → String → Option Value
  | [], _, _ => none
  | .assign name value :: earlier, frame, x =>
    if name = x ∧ current earlier = some frame then some value else stored earlier frame x
  | .declare name value :: earlier, frame, x =>
    if name = x ∧ current earlier = some frame then (stored earlier frame x).or (some value)
    else stored earlier frame x
  | .push :: earlier, frame, x | .pop :: earlier, frame, x => stored earlier frame x

/-- Something was stored under the name in the innermost frame since that was opened. -/
def IsStored (h : History) (name : String) : Prop :=
  ∃ frame value, h.current = some frame ∧ h.stored frame name = some value

end History

/-- What can be told of an environment from its history. -/
structure Follows (env : Env) (h : History) : Prop where
  depth : env.depth = h.openFrames.length
  /-- A name means what was last stored under it in the innermost open frame that has it. -/
  lookup : ∀ name, env.lookup name = h.openFrames.findSome? (h.stored · name)
  /-- A declaration fails if and only if the name is stored in the innermost frame. -/
  declare : ∀ name value,
    (h.IsStored name →
      (Op.declare name value).act env = ⟨.error (.error (.redeclared name)), env, []⟩) ∧
    (¬ h.IsStored name → ((Op.declare name value).act env).result = .ok ())
  /-- A pop crashes if and only if one frame is left. -/
  pop : (h.openFrames.length = 1 → Op.pop.act env = ⟨.error (.crash .outermostFrame), env, []⟩) ∧
    (h.openFrames.length ≠ 1 → (Op.pop.act env).result = .ok ())

/-! ## The names of frames -/

namespace History

theorem leave_suffix (frames : List Nat) : leave frames <:+ frames := by
  fun_cases leave frames with
  | case1 => -- two frames or more
    exact List.suffix_cons _ _
  | case2 => -- one frame or none
    exact List.suffix_refl _

theorem leave_ne_nil {frames : List Nat} (h : frames ≠ []) : leave frames ≠ [] := by
  fun_cases leave frames with
  | case1 => -- two frames or more
    exact List.cons_ne_nil _ _
  | case2 => -- one frame or none
    exact h

variable (h : History)

theorem openFrames_ne_nil : h.openFrames ≠ [] := by
  fun_induction openFrames h with
  | case1 => -- no operation yet
    exact List.cons_ne_nil _ _
  | case2 earlier _ => -- a push
    exact List.cons_ne_nil _ _
  | case3 earlier ih => -- a pop
    exact leave_ne_nil ih
  | case4 _ _ _ ih | case5 _ _ _ ih => -- a declaration or an assignment
    exact ih

/-- No frame is opened before its time. -/
theorem le_length_of_mem_openFrames : ∀ frame ∈ h.openFrames, frame ≤ h.length := by
  fun_induction openFrames h with
  | case1 => -- no operation yet
    simp
  | case2 earlier ih => -- a push
    refine List.forall_mem_cons.mpr ⟨Nat.le_refl _, fun frame hframe => ?_⟩
    exact Nat.le_succ_of_le (ih frame hframe)
  | case3 earlier ih => -- a pop
    intro frame hframe
    exact Nat.le_succ_of_le (ih frame ((leave_suffix _).mem hframe))
  | case4 _ _ _ ih | case5 _ _ _ ih => -- a declaration or an assignment
    exact fun frame hframe => Nat.le_succ_of_le (ih frame hframe)

/-- A frame further in was opened later, so no two open frames have one name. -/
theorem openFrames_nodup : h.openFrames.Nodup := by
  fun_induction openFrames h with
  | case1 => -- no operation yet
    simp
  | case2 earlier ih => -- a push
    refine List.nodup_cons.mpr ⟨fun hmem => ?_, ih⟩
    have := le_length_of_mem_openFrames earlier _ hmem
    omega
  | case3 earlier ih => -- a pop
    exact ih.sublist (leave_suffix _).sublist
  | case4 _ _ _ ih | case5 _ _ _ ih => -- a declaration or an assignment
    exact ih

/-- Nothing is stored in a frame that is still to be opened. -/
theorem stored_eq_none_of_length_lt {frame : Nat} (hframe : h.length < frame) (name : String) :
    h.stored frame name = none := by
  have hcurrent (earlier : History) (hlt : earlier.length < frame) :
      earlier.current ≠ some frame := by
    intro heq
    have := le_length_of_mem_openFrames earlier frame (List.mem_of_mem_head? heq)
    omega
  induction h with
  | nil => rfl
  | cons op earlier ih =>
    have hlt : earlier.length < frame := Nat.lt_of_succ_lt hframe
    cases op with
    | push | pop => exact ih hlt
    | declare | assign => rw [stored, if_neg fun hand => hcurrent earlier hlt hand.2, ih hlt]

end History

/-! ## What the operations do -/

theorem act_declare (name : String) (value : Value) (env : Env) :
    (Op.declare name value).act env =
      if Frame.binds env.top name then ⟨.error (.error (.redeclared name)), env, []⟩
      else ⟨.ok (), env.assign name value, []⟩ := by
  simp only [Op.act, Action.bind_apply, Action.getEnv_apply, Env.declare, Scope.declare?]
  cases Frame.binds env.top name <;> rfl

/-- An operation that fails changes nothing. -/
theorem act_env_of_error {op : Op} {env : Env} {halt : Halt}
    (h : (op.act env).result = .error halt) : (op.act env).env = env := by
  cases op with
  | push | assign => cases h
  | declare name value =>
    rw [act_declare] at h ⊢
    split at h
    · rename_i hbinds
      rw [if_pos hbinds]
    · cases h
  | pop =>
    obtain ⟨top, _ | ⟨frame, outer⟩⟩ := env
    · rfl
    · cases h

/-! ## Frames hold what was stored in them -/

/-- The frames of the environment are the open ones, and hold what was stored in them. -/
def Tracks (env : Env) (h : History) : Prop :=
  List.Forall₂ (fun frame opened => ∀ name, List.lookup name frame = h.stored opened name)
    env.frames h.openFrames

namespace Tracks

variable {env : Env} {h : History}

theorem depth (ht : env.Tracks h) : env.depth = h.openFrames.length := ht.length_eq

theorem lookup (ht : env.Tracks h) (name : String) :
    env.lookup name = h.openFrames.findSome? (h.stored · name) := by
  have hframes := ht
  rw [Tracks] at hframes
  rw [Scope.lookup]
  generalize env.frames = frames, h.openFrames = opened at hframes
  induction hframes with
  | nil => rfl
  | cons hframe _ ih => rw [List.findSome?_cons, List.findSome?_cons, hframe, ih]

/-- The top frame and the innermost open one correspond. -/
theorem exists_current (ht : env.Tracks h) :
    ∃ opened rest, h.openFrames = opened :: rest ∧
      (∀ name, env.top.lookup name = h.stored opened name) ∧
      List.Forall₂ (fun frame opened => ∀ name, List.lookup name frame = h.stored opened name)
        env.outer rest := by
  rw [Tracks, Scope.frames] at ht
  cases hopen : h.openFrames with
  | nil => exact absurd hopen h.openFrames_ne_nil
  | cons opened rest =>
    rw [hopen, List.forall₂_cons] at ht
    exact ⟨opened, rest, rfl, ht.1, ht.2⟩

theorem binds_iff (ht : env.Tracks h) (name : String) :
    Frame.binds env.top name = true ↔ h.IsStored name := by
  obtain ⟨opened, rest, hopen, htop, -⟩ := ht.exists_current
  rw [Frame.binds, htop, Option.isSome_iff_exists, History.IsStored, History.current, hopen]
  simp

/-- What is stored in the innermost frame is bound in the top one. Other frames have other names,
so nothing changes in them. -/
theorem assign {op : Op} (ht : env.Tracks h) (name : String) (value : Value)
    (hopen : History.openFrames (op :: h) = h.openFrames)
    (hstored : ∀ opened x, History.stored (op :: h) opened x =
      if name = x ∧ h.current = some opened then some value else h.stored opened x) :
    Tracks (env.assign name value) (op :: h) := by
  obtain ⟨opened, rest, hcurrent, htop, houter⟩ := ht.exists_current
  have hnodup := h.openFrames_nodup
  rw [hcurrent] at hnodup
  simp only [History.current, hcurrent, List.head?_cons, Option.some.injEq] at hstored
  rw [Tracks, hopen, hcurrent]
  refine .cons (fun x => ?_) (List.forall₂_iff_zip.mpr ⟨houter.length_eq, ?_⟩)
  · rw [hstored]
    by_cases hx : name = x
    · rw [if_pos ⟨hx, rfl⟩, ← hx]
      exact Frame.lookup_insert_self _ _ _
    · rw [if_neg fun hand => hx hand.1, ← htop]
      exact Frame.lookup_insert_of_ne _ _ (Ne.symm hx)
  · intro frame other hmem x
    have hother : opened ≠ other := fun heq =>
      (List.nodup_cons.mp hnodup).1 (heq ▸ (List.of_mem_zip hmem).2)
    rw [hstored, if_neg fun hand => hother hand.2]
    exact (List.forall₂_iff_zip.mp houter).2 hmem x

theorem push (ht : env.Tracks h) : Tracks env.push (.push :: h) :=
  .cons (fun name => (h.stored_eq_none_of_length_lt (Nat.lt_succ_self _) name).symm) ht

theorem pop (ht : env.Tracks h) : Tracks (Op.pop.act env).env (.pop :: h) := by
  obtain ⟨opened, rest, hopen, htop, houter⟩ := ht.exists_current
  obtain ⟨top, outer⟩ := env
  rw [Tracks, History.openFrames, hopen]
  cases houter with
  | nil => exact .cons htop .nil
  | cons hframe houter => exact .cons hframe houter

theorem declare (ht : env.Tracks h) (name : String) (value : Value) :
    Tracks ((Op.declare name value).act env).env (.declare name value :: h) := by
  rw [act_declare]
  split
  · -- what is declared again is stored already
    rename_i hbinds
    obtain ⟨frame, old, hcurrent, hold⟩ := (ht.binds_iff name).mp hbinds
    have hstored (opened : Nat) (x : String) :
        History.stored (.declare name value :: h) opened x = h.stored opened x := by
      rw [History.stored]
      split
      · rename_i hand
        obtain ⟨rfl, hopened⟩ := hand
        rw [hcurrent] at hopened
        cases hopened
        rw [hold, Option.or_some, Option.getD_some]
      · rfl
    exact ht.imp fun _ _ hframe x => (hframe x).trans (hstored _ x).symm
  · rename_i hbinds
    refine ht.assign name value rfl fun opened x => ?_
    rw [History.stored]
    by_cases hand : name = x ∧ h.current = some opened
    · rw [if_pos hand, if_pos hand]
      obtain ⟨rfl, hopened⟩ := hand
      cases hold : h.stored opened name with
      | none => rfl
      | some old => exact absurd ((ht.binds_iff name).mpr ⟨opened, old, hopened, hold⟩) hbinds
    · rw [if_neg hand, if_neg hand]

/-- Every operation keeps the frames and their histories in step. -/
theorem act (ht : env.Tracks h) (op : Op) : Tracks (op.act env).env (op :: h) := by
  cases op with
  | push => exact ht.push
  | pop => exact ht.pop
  | declare name value => exact ht.declare name value
  | assign name value => exact ht.assign name value rfl fun _ _ => rfl

theorem follows (ht : env.Tracks h) : env.Follows h where
  depth := ht.depth
  lookup := ht.lookup
  declare name value := by
    rw [act_declare]
    refine ⟨fun hstored => if_pos ((ht.binds_iff name).mpr hstored), fun hstored => ?_⟩
    rw [if_neg (mt (ht.binds_iff name).mp hstored)]
  pop := by
    rw [← ht.depth]
    obtain ⟨top, _ | ⟨frame, outer⟩⟩ := env
    · exact ⟨fun _ => rfl, fun hdepth => absurd rfl hdepth⟩
    · exact ⟨fun hdepth => by simp [Scope.depth, Scope.frames] at hdepth, fun _ => rfl⟩

end Tracks

theorem tracks_after (h : History) : Tracks (after Scope.empty h) h := by
  induction h with
  | nil => exact .cons (fun _ => rfl) .nil
  | cons op earlier ih => exact ih.act op

theorem after_append (env : Env) (later earlier : History) :
    env.after (later ++ earlier) = (env.after earlier).after later := by
  induction later with
  | nil => rfl
  | cons op later ih => rw [List.cons_append, after, after, ih]

/-! ## Sections -/

/-- While a frame is open that was opened after a history, the frames below it are as they were
after that history. -/
theorem frames_after_of_open (env : Env) (h : History) (body : List Op)
    (hopen : h.length + 1 ∈ History.openFrames (body ++ .push :: h)) :
    ∃ inner, History.openFrames (body ++ .push :: h) = inner ++ (h.length + 1) :: h.openFrames ∧
      ((env.after (body ++ .push :: h)).frames).drop (inner.length + 1) = (env.after h).frames := by
  induction body with
  | nil => exact ⟨[], rfl, rfl⟩
  | cons op body ih =>
    cases op with
    | assign name value =>
      obtain ⟨inner, hinner, hframes⟩ := ih hopen
      exact ⟨inner, hinner, hframes⟩
    | declare name value =>
      obtain ⟨inner, hinner, hframes⟩ := ih hopen
      refine ⟨inner, hinner, ?_⟩
      rw [List.cons_append, after, act_declare]
      split <;> exact hframes
    | push =>
      have hearlier : h.length + 1 ∈ History.openFrames (body ++ .push :: h) := by
        refine (List.mem_cons.mp hopen).resolve_left fun heq => ?_
        have hlength := @List.length_append _ body (.push :: h)
        rw [List.length_cons] at hlength
        have : h.length + 1 = (body ++ .push :: h).length + 1 := heq
        omega
      obtain ⟨inner, hinner, hframes⟩ := ih hearlier
      refine ⟨((body ++ .push :: h).length + 1) :: inner, ?_, hframes⟩
      rw [List.cons_append, History.openFrames, hinner, List.cons_append]
    | pop =>
      obtain ⟨inner, hinner, hframes⟩ := ih ((History.leave_suffix _).mem hopen)
      rw [List.cons_append, History.openFrames, hinner] at hopen ⊢
      rw [after]
      generalize hlater : env.after (body ++ .push :: h) = later at hframes
      obtain ⟨top, outer⟩ := later
      cases inner with
      | nil =>
        -- the pop would leave the frame itself
        have hle := h.le_length_of_mem_openFrames
        obtain ⟨frame, rest, hrest⟩ := List.exists_cons_of_ne_nil h.openFrames_ne_nil
        rw [List.nil_append, hrest, History.leave, ← hrest] at hopen
        have := hle _ hopen
        omega
      | cons opened inner =>
        refine ⟨inner, ?_, ?_⟩
        · cases inner <;> rfl
        · cases outer with
          | nil => cases inner <;> cases hframes
          | cons frame outer => exact hframes

/-- A frame leaves nothing behind when the pop comes that leaves it. -/
theorem after_section (env : Env) (h : History) (body : List Op)
    (hmatches : History.current (body ++ .push :: h) = some (h.length + 1)) :
    env.after (.pop :: (body ++ .push :: h)) = env.after h := by
  obtain ⟨inner, hinner, hframes⟩ :=
    env.frames_after_of_open h body (List.mem_of_mem_head? hmatches)
  have hnil : inner = [] := by
    have hnodup := History.openFrames_nodup (body ++ .push :: h)
    rw [History.current, hinner] at hmatches
    rw [hinner] at hnodup
    cases inner with
    | nil => rfl
    | cons opened inner =>
      cases hmatches
      simp at hnodup
  rw [hnil, List.length_nil] at hframes
  rw [after]
  generalize env.after (body ++ .push :: h) = later at hframes
  obtain ⟨top, outer⟩ := later
  obtain rfl : outer = (env.after h).frames := hframes
  rfl

end Env

/-- **Histories.** What is done to an environment that was empty or the standard one at first can
be told from the history alone: what each name means, which declarations fail, and which pop
crashes. An operation that fails changes nothing, and from a push to the pop that leaves its frame
again nothing at all has changed. -/
theorem follows_of_history :
    (∀ h, Env.Follows (Env.after Scope.empty h) h) ∧
      (∀ h, Env.Follows (Env.standard.after h) (h ++ Env.standardHistory)) ∧
      (∀ (env : Env) (op : Env.Op) halt, (op.act env).result = .error halt →
        (op.act env).env = env) ∧
      ∀ (env : Env) (h body : Env.History),
        Env.History.current (body ++ .push :: h) = some (h.length + 1) →
          env.after (.pop :: (body ++ .push :: h)) = env.after h := by
  refine ⟨fun h => (Env.tracks_after h).follows, fun h => ?_, fun _ _ _ => Env.act_env_of_error,
    fun env h body => env.after_section h body⟩
  have hstandard : Env.standard = Env.after Scope.empty Env.standardHistory := rfl
  rw [hstandard, ← Env.after_append]
  exact (Env.tracks_after _).follows

/-- In a frame of its own a name may be declared again, once; the frame leaves nothing behind. -/
theorem follows_of_history_shadowed :
    let h : Env.History := [.declare "x" .nil]
    let body : Env.History := [.declare "x" (.number 1)]
    let env := Env.standard.after (body ++ .push :: h)
    let again := (Env.Op.declare "x" (.number 2)).act env
    Env.History.current (body ++ .push :: h) = some (h.length + 1) ∧
      Env.standard.after (.pop :: (body ++ .push :: h)) = Env.standard.after h ∧
      env.lookup "x" = some (.number 1) ∧
      again.result = .error (.error (.redeclared "x")) ∧ again.env = env := by
  intro h body env again
  have hmatches : Env.History.current (body ++ .push :: h) = some (h.length + 1) := rfl
  have hagain : again.result = .error (.error (.redeclared "x")) := rfl
  obtain ⟨-, hfollows, hfails, hsection⟩ := follows_of_history
  refine ⟨hmatches, hsection _ h body hmatches, ?_, hagain, hfails env _ _ hagain⟩
  rw [(hfollows _).lookup]
  rfl

end SnapLisp
