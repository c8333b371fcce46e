import Mathlib.Logic.Function.Basic
import SnapLisp.Proofs.Evaluation.Failures
import SnapLisp.Proofs.Evaluation.FrameLaw
import SnapLisp.Proofs.Evaluation.Machine

/-!
# Many environments and one console

Scripts are run in several environments, in any order, and all of them tell the same console. By
induction on the calls, each call follows the action that it is by itself (`Shared.alone`): its
environment has had its own calls only, and what the console has been told plays no part
(`Shared.call_eq`, `Shared.stackOf_calls`). Of failures it tells the error that it ends with
(`failures_run`).

`console_write_only` puts this together: no call disturbs another, the console gains the lines of
all calls in their order, and it keeps the first error.
-/

namespace SnapLisp

/-! ## The console as a sink -/

/-- The console takes note of strings by appending them, and of an error if it is the first one. -/
def Console.sink : Sink Console where
  log messages c := c.receive (.log messages)
  fail e c := c.receive (.fail e)

namespace Console

theorem sink_receiveAll (c : Console) (events : List Event) :
    sink.receiveAll c events = c.receiveAll events := by
  have hreceive : sink.receive = receive := by
    funext c event
    cases event <;> rfl
  rw [Sink.receiveAll, hreceive, receiveAll]

/-- The failure that is kept is the first one. -/
theorem fatal_receiveAll (c : Console) (events : List Event) :
    (c.receiveAll events).fatal = c.fatal.or (events.filterMap Event.failure?).head? := by
  induction events generalizing c with
  | nil => simp [receiveAll]
  | cons event rest ih =>
    rw [receiveAll, List.foldl_cons, ← receiveAll, ih]
    cases event with
    | log messages => rfl
    | fail e => simp [receive, Event.failure?]

/-- What the console holds after events. -/
theorem receiveAll_eq (c : Console) (events : List Event) :
    c.receiveAll events = ⟨c.lines ++ events.flatMap Event.messages,
      c.fatal.or (events.filterMap Event.failure?).head?⟩ := by
  rw [← lines_receiveAll, ← fatal_receiveAll]

end Console

/-! ## Calls on several environments -/

namespace Shared

/-- The run of a source text in one of several environments. -/
structure Call (ι : Type) where
  target : ι
  fuel : Nat
  source : String

/-- Stacks for several environments, and what is kept of all that runs tell. -/
structure State (ι σ : Type) where
  stackOf : ι → Stack
  sink : σ

variable {ι σ : Type} [DecidableEq ι]

/-- Makes a call: the machine runs on the stack of the environment, and on the sink of all. -/
def call (sink : Sink σ) (st : State ι σ) (c : Call ι) : Except Machine.Stop Value × State ι σ :=
  match Machine.run sink c.fuel c.source ⟨st.stackOf c.target, st.sink⟩ with
  | (result, st') => (result, ⟨Function.update st.stackOf c.target st'.stack, st'.sink⟩)

/-- Makes calls, one after the other. -/
def calls (sink : Sink σ) (st : State ι σ) (cs : List (Call ι)) : State ι σ :=
  cs.foldl (fun st c => (call sink st c).2) st

/-- Before the first call. -/
def start (envs : ι → Env) (s : σ) : State ι σ := ⟨fun i => (envs i).frames, s⟩

/-- The runs that calls make in one of the environments. -/
def own (i : ι) (cs : List (Call ι)) : List (Nat × String) :=
  (cs.filter (·.target = i)).map fun c => (c.fuel, c.source)

/-- What a call that follows others comes to by itself: in its own environment, where only those of
the others count that have the same one, and without a console. -/
def alone (envs : ι → Env) (front : List (Call ι)) (c : Call ι) : Outcome Value :=
  run c.fuel c.source ((envs c.target).afterRuns (own c.target front))

/-- What a call that follows others does apart from those that do not concern it: of the others only
the ones on its own environment are made, and then it has a console that has been told nothing. -/
def apart (envs : ι → Env) (front : List (Call ι)) (c : Call ι) :
    Except Machine.Stop Value × State ι Console :=
  let earlier := front.filter (·.target = c.target)
  call Console.sink ⟨(calls Console.sink (start envs Console.empty) earlier).stackOf, .empty⟩ c

/-- What calls that follow others do, each apart. -/
def apartAll (envs : ι → Env) (front : List (Call ι)) :
    List (Call ι) → List (Except Machine.Stop Value × State ι Console)
  | [] => []
  | c :: rest => apart envs front c :: apartAll envs (front ++ [c]) rest

/-- What calls that follow others come to, each by itself. -/
def aloneAll (envs : ι → Env) (front : List (Call ι)) : List (Call ι) → List (Outcome Value)
  | [] => []
  | c :: rest => alone envs front c :: aloneAll envs (front ++ [c]) rest

variable {envs : ι → Env}

/-- A call leaves its own environment as the call by itself does. -/
theorem afterRuns_own_target (envs : ι → Env) (front : List (Call ι)) (c : Call ι) :
    (envs c.target).afterRuns (own c.target (front ++ [c])) = (alone envs front c).env := by
  have hown : own c.target (front ++ [c]) = own c.target front ++ [(c.fuel, c.source)] := by
    simp [own]
  rw [hown, Env.afterRuns_append]
  rfl

/-- A call is none of another environment. -/
theorem own_of_ne {i : ι} {c : Call ι} (h : i ≠ c.target) (front : List (Call ι)) :
    own i (front ++ [c]) = own i front := by
  simp [own, Ne.symm h]

/-- A call comes to what it comes to by itself, and the sink is told of that. -/
theorem call_eq (sink : Sink σ) (s : σ) {stackOf : ι → Stack} {front : List (Call ι)}
    (h : stackOf = fun i => ((envs i).afterRuns (own i front)).frames) (c : Call ι) :
    call sink ⟨stackOf, s⟩ c = ((alone envs front c).result.mapError .halt,
      ⟨fun i => ((envs i).afterRuns (own i (front ++ [c]))).frames,
        sink.receiveAll s (alone envs front c).events⟩) := by
  subst h
  have hstacks : (fun i => ((envs i).afterRuns (own i (front ++ [c]))).frames) =
      Function.update (fun i => ((envs i).afterRuns (own i front)).frames) c.target
        (alone envs front c).env.frames := by
    funext i
    by_cases h : i = c.target
    · subst h
      rw [afterRuns_own_target, Function.update_self]
    · rw [own_of_ne h, Function.update_of_ne h]
  rw [call, Machine.run_follows, hstacks]
  rfl

theorem calls_concat (sink : Sink σ) (st : State ι σ) (front : List (Call ι)) (c : Call ι) :
    calls sink st (front ++ [c]) = (call sink (calls sink st front) c).2 :=
  List.foldl_concat ..

/-- Between calls the stack of each environment is as its own calls by themselves leave it. -/
theorem stackOf_calls (envs : ι → Env) (sink : Sink σ) (cs : List (Call ι)) (s : σ) :
    (calls sink (start envs s) cs).stackOf =
      fun i => ((envs i).afterRuns (own i cs)).frames := by
  induction cs using List.reverseRecOn with
  | nil => rfl
  | append_singleton front c ih => rw [calls_concat, call_eq sink _ ih]

/-- Calls on other environments have no part in it. -/
theorem alone_filter (front : List (Call ι)) (c : Call ι) :
    alone envs (front.filter (·.target = c.target)) c = alone envs front c := by
  simp [alone, own, List.filter_filter]

/-- What a call does apart is what it comes to by itself, with its lines and its error on the
console. -/
theorem apart_eq (envs : ι → Env) (front : List (Call ι)) (c : Call ι) :
    (apart envs front c).1 = (alone envs front c).result.mapError .halt ∧
      (apart envs front c).2.stackOf c.target = (alone envs front c).env.frames ∧
        (apart envs front c).2.sink =
          ⟨(alone envs front c).printed, (alone envs front c).failure?⟩ := by
  let earlier := front.filter (·.target = c.target)
  have hcall := call_eq Console.sink .empty (stackOf_calls envs Console.sink earlier .empty) c
  have hown := afterRuns_own_target envs earlier c
  rw [alone_filter] at hcall hown
  have hfailures : (alone envs front c).events.filterMap Event.failure? =
    (alone envs front c).failure?.toList := failures_run ..
  rw [apart, hcall]
  refine ⟨rfl, congrArg Scope.frames hown, ?_⟩
  rw [Console.sink_receiveAll, Console.receiveAll_eq, hfailures, Option.head?_toList]
  rfl

/-! ## No call disturbs another -/

/-- The error of the script that a machine ended with. -/
def failure? {α : Type} : Except Machine.Stop α → Option ScriptError
  | .error (.halt (.error e)) => some e
  | _ => none

theorem failure?_mapError {α : Type} (o : Outcome α) :
    failure? (o.result.mapError .halt) = o.failure? := by
  obtain ⟨result, env, events⟩ := o
  rcases result with (_ | _ | _) | _ <;> rfl

/-- What a call that follows others has from the others, and what the console has from it, where the
console is told of all of them. -/
structure Undisturbed (envs : ι → Env) (front : List (Call ι)) (c : Call ι)
    (before : State ι Console) (after : Except Machine.Stop Value × State ι Console) : Prop where
  result : after.1 = (apart envs front c).1
  own : after.2.stackOf c.target = (apart envs front c).2.stackOf c.target
  others : ∀ i, i ≠ c.target → after.2.stackOf i = before.stackOf i
  /-- The lines from before stay, and those follow that the call prints by itself. -/
  lines : after.2.sink.lines = before.sink.lines ++ (alone envs front c).printed
  /-- Apart from the others the call leaves the same lines on the console. -/
  apart_lines : (apart envs front c).2.sink.lines = (alone envs front c).printed
  /-- A failure from before stays. -/
  fatal : after.2.sink.fatal = before.sink.fatal.or (failure? after.1)
  /-- A text that is no script changes nothing but the failure. -/
  malformed : ∀ e, Script.ofString c.source = .error e → after.1 = .error (.halt (.error e)) ∧
    after.2.stackOf = before.stackOf ∧ after.2.sink.lines = before.sink.lines

/-- What a call tells a sink: what the run by itself tells, and of these events exactly one is of an
error if the call returns one, of this error, and none otherwise. -/
structure TellsOnce (sink : Sink σ) (envs : ι → Env) (front : List (Call ι)) (c : Call ι)
    (before : State ι σ) (after : Except Machine.Stop Value × State ι σ) : Prop where
  result : after.1 = (apart envs front c).1
  own : after.2.stackOf c.target = (apart envs front c).2.stackOf c.target
  told : after.2.sink = sink.receiveAll before.sink (alone envs front c).events
  failures : (alone envs front c).events.filterMap Event.failure? = (failure? after.1).toList

theorem call_tellsOnce (envs : ι → Env) (sink : Sink σ) (s : σ) (front : List (Call ι))
    (c : Call ι) :
    TellsOnce sink envs front c (calls sink (start envs s) front)
      (call sink (calls sink (start envs s) front) c) := by
  obtain ⟨hresult, hown, -⟩ := apart_eq envs front c
  rw [call_eq sink _ (stackOf_calls envs sink front s)]
  refine ⟨hresult.symm, ?_, rfl, ?_⟩
  · rw [hown, ← afterRuns_own_target]
  · rw [failure?_mapError]
    exact failures_run ..

theorem call_undisturbed (envs : ι → Env) (console : Console) (front : List (Call ι))
    (c : Call ι) :
    Undisturbed envs front c (calls Console.sink (start envs console) front)
      (call Console.sink (calls Console.sink (start envs console) front) c) := by
  obtain ⟨hresult, hown, htold, hfailures⟩ := call_tellsOnce envs Console.sink console front c
  obtain ⟨hresultApart, -, hsinkApart⟩ := apart_eq envs front c
  have hbefore := stackOf_calls envs Console.sink front console
  have hafter := stackOf_calls envs Console.sink (front ++ [c]) console
  rw [calls_concat] at hafter
  generalize calls Console.sink (start envs console) front = before at *
  generalize call Console.sink before c = after at *
  rw [Console.sink_receiveAll, Console.receiveAll_eq, hfailures, Option.head?_toList] at htold
  have hlines : after.2.sink.lines = before.sink.lines ++ (alone envs front c).printed := by
    rw [htold]
    rfl
  refine ⟨hresult, hown, fun i hi => ?_, hlines, by rw [hsinkApart], by rw [htold],
    fun e he => ?_⟩
  · simp only [hafter, hbefore, own_of_ne hi]
  · have halone : alone envs front c = ⟨.error (.error e),
        (envs c.target).afterRuns (own c.target front), [.fail e]⟩ := by
      rw [alone, run, he]
      rfl
    rw [halone] at hresultApart hlines
    refine ⟨hresult.trans hresultApart, ?_, ?_⟩
    · rw [hafter, hbefore]
      funext i
      by_cases hi : i = c.target
      · subst hi
        rw [afterRuns_own_target, halone]
      · rw [own_of_ne hi]
    · rw [hlines]
      exact List.append_nil _

/-- An environment after calls is as its own calls leave it, with a console of their own. -/
theorem stackOf_calls_filter (envs : ι → Env) (console : Console) (cs : List (Call ι)) (i : ι) :
    (calls Console.sink (start envs console) cs).stackOf i =
      (calls Console.sink (start envs Console.empty) (cs.filter (·.target = i))).stackOf i := by
  rw [stackOf_calls, stackOf_calls]
  simp [own, List.filter_filter]

theorem apartAll_concat (envs : ι → Env) (front cs : List (Call ι)) (c : Call ι) :
    apartAll envs front (cs ++ [c]) = apartAll envs front cs ++ [apart envs (front ++ cs) c] := by
  induction cs generalizing front with
  | nil => simp [apartAll]
  | cons first rest ih => simp [apartAll, ih]

/-- Each call leaves the lines on a console of its own that it prints by itself. -/
theorem lines_apartAll (envs : ι → Env) (front cs : List (Call ι)) :
    (apartAll envs front cs).map (·.2.sink.lines) = (aloneAll envs front cs).map (·.printed) := by
  induction cs generalizing front with
  | nil => rfl
  | cons c rest ih =>
    obtain ⟨-, -, hsink⟩ := apart_eq envs front c
    simp only [apartAll, aloneAll, List.map_cons, hsink, ih]

/-- What the console holds after calls: what it held before, then what each of them prints by
itself, and of the failures the first. -/
theorem sink_calls (envs : ι → Env) (console : Console) (cs : List (Call ι)) :
    (calls Console.sink (start envs console) cs).sink =
      ⟨console.lines ++ (aloneAll envs [] cs).flatMap (·.printed),
        console.fatal.or ((apartAll envs [] cs).findSome? (failure? ·.1))⟩ := by
  rw [List.flatMap_def, ← lines_apartAll, ← List.flatMap_def]
  induction cs using List.reverseRecOn with
  | nil => simp [calls, start, apartAll]
  | append_singleton cs c ih =>
    obtain ⟨hresult, -, -, hlines, happart, hfatal, -⟩ := call_undisturbed envs console cs c
    rw [hresult] at hfatal
    rw [ih] at hlines hfatal
    rw [← happart] at hlines
    rw [calls_concat, apartAll_concat, List.nil_append, List.flatMap_append, List.findSome?_append,
      ← List.append_assoc, ← Option.or_assoc, List.flatMap_singleton, List.findSome?_singleton,
      ← hlines, ← hfatal]

end Shared

/-- **The console is only written.** Whatever runs in whichever environment and in whatever order:
each call comes to the same as apart from the calls on the other environments and from what the
console has been told, and the console keeps what it has and adds what the call prints. Any sink is
told of the error that a call returns, once, and of no other. After all the calls every environment
is as its own calls leave it, and the console holds what each call prints by itself, in their order,
and the first error of all. -/
theorem console_write_only {ι : Type} [DecidableEq ι] (envs : ι → Env) (console : Console) :
    (∀ front c,
      let before := Shared.calls Console.sink (Shared.start envs console) front
      Shared.Undisturbed envs front c before (Shared.call Console.sink before c)) ∧
    (∀ (σ : Type) (sink : Sink σ) s front c,
      let before := Shared.calls sink (Shared.start envs s) front
      Shared.TellsOnce sink envs front c before (Shared.call sink before c)) ∧
    ∀ cs,
      let after := Shared.calls Console.sink (Shared.start envs console) cs
      let apart := Shared.apartAll envs [] cs
      let alone := Shared.aloneAll envs [] cs
      (∀ i, after.stackOf i = (Shared.calls Console.sink (Shared.start envs Console.empty)
        (cs.filter (·.target = i))).stackOf i) ∧
      after.sink = ⟨console.lines ++ alone.flatMap (·.printed),
        console.fatal.or (apart.findSome? (Shared.failure? ·.1))⟩ ∧
      apart.map (·.2.sink.lines) = alone.map (·.printed) :=
  ⟨fun front c => Shared.call_undisturbed envs console front c,
    fun _ sink s front c => Shared.call_tellsOnce envs sink s front c,
    fun cs => ⟨Shared.stackOf_calls_filter envs console cs, Shared.sink_calls envs console cs,
      Shared.lines_apartAll envs [] cs⟩⟩

/-- Two environments take turns, and the console holds a line already: the name that is declared in
one is unbound in the other, and the last text is no script. -/
theorem console_write_only_turns :
    let envs : Bool → Env := fun _ => .standard
    let console : Console := ⟨["ready"], none⟩
    let front : List (Shared.Call Bool) :=
      [⟨true, 4, "(let x (fun y y)) (print x)"⟩, ⟨false, 4, "(print +) (print x)"⟩]
    let c : Shared.Call Bool := ⟨true, 4, "(print x"⟩
    let before := Shared.calls Console.sink (Shared.start envs console) front
    let after := Shared.call Console.sink before c
    ∃ e, Script.ofString c.source = .error e ∧ after.1 = .error (.halt (.error e)) ∧
      after.2.stackOf false = before.stackOf false ∧
      (Shared.calls Console.sink (Shared.start envs console) (front ++ [c])).sink =
        ⟨["ready", "(fun (y) ...)", "<builtin op: +>"],
          some (.unbound "x" ⟨⟨17, 1, 18⟩, ⟨18, 1, 19⟩⟩)⟩ := by
  intro envs console front c before after
  obtain ⟨e, he⟩ : ∃ e, Script.ofString c.source = .error e := ⟨_, by cbv⟩
  obtain ⟨hcall, -, hcalls⟩ := console_write_only envs console
  obtain ⟨hresult, -, -⟩ := (hcall front c).malformed e he
  refine ⟨e, he, hresult, (hcall front c).others false (by decide), ?_⟩
  obtain ⟨-, hsink, -⟩ := hcalls (front ++ [c])
  rw [hsink]
  cbv

end SnapLisp
