import SnapLisp.Proofs.Evaluation.Machine
import SnapLisp.Proofs.Evaluation.Provenance
import SnapLisp.Proofs.Form.ByIndex

/-!
# Nothing breaks

Reading and running a text rests on rules that the library never tests for the sake of a script: an
offset lies inside the text, an index inside the tokens, a stack has a top frame, and the frame of a
call is there to be left when the body is done. `library_unbroken` says that no input breaks one.

For the frames the reason is the invariant that closures come from the source texts. It holds of
whatever is evaluated on the way (`Form.Fits`), so it holds in every state that a session comes to.
-/

namespace SnapLisp

/-! ## What is evaluated on the way -/

/-- What an action ensures with any fuel holds of the value and of the environment that it
yields. -/
theorem Yields.of_ensures {α : Type} {act : Nat → Action α} {inv : Env → Prop} {V : α → Prop}
    {error : ScriptError → Prop} {env env' : Env} {a : α} (h : Yields act env a env')
    (hact : ∀ fuel, (act fuel).Ensures inv V error) (henv : inv env) : inv env' ∧ V a := by
  obtain ⟨fuel, events, heq⟩ := h
  have hinv := (hact fuel).env env henv
  rw [heq] at hinv
  exact ⟨hinv, (hact fuel).value env a henv (by rw [heq])⟩

/-- The form stands in the source texts at least as deep as the environment has frames, and the
closures in the environment come from there. -/
def Form.Fits (sources : List String) (form : Form) (env : Env) : Prop :=
  ∃ level depth, form.StandsIn sources level ∧ env.Traced sources depth ∧ 1 ≤ depth ∧ depth ≤ level

namespace Form.Fits

variable {sources : List String} {form form' : Form} {env env' : Env}

/-- Forms that are evaluated one after the other fit if they stand deep enough. -/
theorem of_reached {forms : List Form} {level depth : Nat}
    (hforms : ∀ form ∈ forms, Form.StandsIn sources form level) (henv : env.Traced sources depth)
    (hpos : 1 ≤ depth) (hdepth : depth ≤ level) (h : Reached forms env form env') :
    Fits sources form env' := by
  induction h with
  | here => exact ⟨level, depth, hforms _ (.head _), henv, hpos, hdepth⟩
  | @there first form rest env env₁ env' value hfirst _ ih =>
    obtain ⟨hform, hrest⟩ := List.forall_mem_cons.mp hforms
    have htraces := fun fuel => eval_traces fuel first hform hpos hdepth
    exact ih hrest (hfirst.of_ensures htraces henv).1

/-- What a form evaluates directly fits if the form does. -/
theorem visitsNext (h : Fits sources form env)
    (hnext : Form.VisitsNext (form, env) (form', env')) : Fits sources form' env' := by
  obtain ⟨level, depth, hform, henv, hpos, hdepth⟩ := h
  have hdeeper : depth ≤ level + 1 := Nat.le_succ_of_le hdepth
  cases hnext with
  | head => exact ⟨level + 1, depth, hform.element (.head _), henv, hpos, hdeeper⟩
  | @operand head _ args span _ env₁ _ f p hhead hp hreached =>
    have htraces := fun fuel => eval_traces fuel head (hform.element (.head _)) hpos hdeeper
    obtain ⟨henv₁, -⟩ := hhead.of_ensures htraces henv
    have hoperands : ∀ arg ∈ p.operands, Form.StandsIn sources arg (level + 1) := fun arg harg =>
      hform.element (.tail _ ((Value.planned hp).operands_subset harg))
    exact of_reached hoperands henv₁ hpos hdeeper hreached
  | @body head _ args body span _ env₁ env₂ scope _ params values hhead _ hvalues hreached =>
    have htraces := fun fuel => eval_traces fuel head (hform.element (.head _)) hpos hdeeper
    obtain ⟨henv₁, hclosure⟩ := hhead.of_ensures htraces henv
    have hargs := fun fuel => Action.Ensures.all fun arg harg =>
      eval_traces fuel arg (hform.element (.tail _ harg)) hpos hdeeper
    obtain ⟨-, hvalues⟩ := hvalues.of_ensures hargs henv₁
    obtain ⟨level', hlevel, hbody⟩ := hclosure.of_closure.1.body_standsIn
    exact of_reached hbody (.callEnv hclosure hvalues) (Nat.succ_pos _) hlevel hreached

theorem visits (h : Fits sources form env) (hvisits : form.Visits env form' env') :
    Fits sources form' env' := by
  have hall : ∀ next, Relation.ReflTransGen Form.VisitsNext (form, env) next →
      Fits sources next.1 next.2 := by
    intro next hnext
    induction hnext with
    | refl => exact h
    | tail _ hstep ih => exact ih.visitsNext hstep
  exact hall _ hvisits

end Form.Fits

/-! ## Frames and bodies -/

/-- Every closure in the value has a body, and a scope with a frame. -/
abbrev Value.Intact (v : Value) : Prop :=
  v.Closures fun _ body scope => body ≠ [] ∧ 1 ≤ scope.depth

/-- The environment has a frame, and every closure in it has a body, and a scope with a frame. -/
structure Env.Intact (env : Env) : Prop where
  frames : 1 ≤ env.depth
  closures : env.All Value.Intact

/-- The frame of a call is there when the body starts, and whatever the body does it is there to be
left again, with the scope of the closure below it. -/
structure Closure.CallIntact (params : List String) (body : List Form) (scope : Env)
    (values : List Value) : Prop where
  nonempty : body ≠ []
  start : (callEnv scope params values).depth = scope.depth + 1
  stop : ∀ fuel, (Action.last (eval fuel) .nil body (callEnv scope params values)).env.depth =
    scope.depth + 1
  pop : ∀ fuel, (Action.last (eval fuel) .nil body (callEnv scope params values)).env.pop? =
    some scope

section Intact

variable {sources : List String}

theorem Closure.MadeIn.intact {params : List String} {body : List Form} {scope : Env}
    (h : MadeIn sources params body scope) : body ≠ [] ∧ 1 ≤ scope.depth := by
  obtain ⟨_, _, _, _, -, hbody, -, hscope, -⟩ := h
  exact ⟨hbody, hscope⟩

theorem Value.Traced.intact {v : Value} (h : v.Traced sources) : v.Intact :=
  h.mono fun _ _ _ hmade => hmade.intact

theorem Env.Traced.intact {depth : Nat} {env : Env} (h : env.Traced sources depth)
    (hpos : 1 ≤ depth) : env.Intact :=
  ⟨h.depth ▸ hpos, h.closures.mono fun _ hv => hv.intact⟩

theorem Closure.callIntact (params : List String) {body : List Form} (scope : Env)
    (values : List Value) (hbody : body ≠ []) : CallIntact params body scope values := by
  have houter (fuel : Nat) :
      (Action.last (eval fuel) .nil body (callEnv scope params values)).env.outer =
        scope.frames := by
    rw [(Action.Safe.last (eval_safe fuel) .nil body).outer]
    exact Scope.outer_assignAll scope.push _
  refine ⟨hbody, Scope.depth_callEnv scope params values, fun fuel => ?_, fun fuel => ?_⟩
  · rw [Scope.depth, Scope.frames, List.length_cons, houter]
    rfl
  · rw [Scope.pop?, houter]
    rfl

end Intact

/-! ## Sessions -/

namespace Session

/-- In one of the runs, the form is evaluated in the environment. -/
def Evaluates (runs : List (Nat × String)) (form : Form) (env : Env) : Prop :=
  ∃ front fuel source back script top start, runs = front ++ (fuel, source) :: back ∧
    Script.ofString source = .ok script ∧
      Reached script.forms (Env.standard.afterRuns front) top start ∧ top.Visits start form env

/-- The environment is there between two runs, or before or after a form is evaluated in one. -/
inductive Holds (runs : List (Nat × String)) : Env → Prop where
  | between {front back : List (Nat × String)} : runs = front ++ back →
      Holds runs (Env.standard.afterRuns front)
  | before {form : Form} {env : Env} : Evaluates runs form env → Holds runs env
  | after {form : Form} {env : Env} (fuel : Nat) : Evaluates runs form env →
      Holds runs (eval fuel form env).env

/-- In one of the runs, the closure is called with the values. -/
def Calls (runs : List (Nat × String)) (params : List String) (body : List Form) (scope : Env)
    (values : List Value) : Prop :=
  ∃ head args span env env₁ env₂, Evaluates runs (.list (head :: args) span) env ∧
    Yields (eval · head) env (.closure params body scope) env₁ ∧ params.length = args.length ∧
      Yields (fun fuel => Action.all (eval fuel) args) env₁ values env₂

/-- A form has the value in one of the runs, or one of the runs comes to it. -/
inductive Gives (runs : List (Nat × String)) (value : Value) : Prop where
  | form {form : Form} {env : Env} {fuel : Nat} : Evaluates runs form env →
      (eval fuel form env).result = .ok value → Gives runs value
  | run {front back : List (Nat × String)} {fuel : Nat} {source : String} :
      runs = front ++ (fuel, source) :: back →
        (run fuel source (Env.standard.afterRuns front)).result = .ok value → Gives runs value

variable {runs : List (Nat × String)} {form : Form} {env : Env}

theorem Evaluates.fits (h : Evaluates runs form env) : form.Fits (sourcesOf runs) env := by
  obtain ⟨front, fuel, source, back, script, top, start, rfl, hscript, htop, hvisits⟩ := h
  have hsource : source ∈ sourcesOf (front ++ (fuel, source) :: back) := by simp
  have hforms : ∀ form ∈ script.forms, Form.StandsIn _ form 1 := fun _ => .top hsource hscript
  have henv := Env.traced_afterRuns front ((fuel, source) :: back)
  exact (Form.Fits.of_reached hforms henv (Nat.le_refl 1) (Nat.le_refl 1) htop).visits hvisits

theorem Evaluates.visitsNext {form' : Form} {env' : Env} (h : Evaluates runs form env)
    (hnext : Form.VisitsNext (form, env) (form', env')) : Evaluates runs form' env' := by
  obtain ⟨front, fuel, source, back, script, top, start, hruns, hscript, htop, hvisits⟩ := h
  exact ⟨front, fuel, source, back, script, top, start, hruns, hscript, htop, hvisits.tail hnext⟩

theorem Holds.intact (h : Holds runs env) : env.Intact := by
  cases h with
  | @between front back hruns => exact (Env.traced_afterRuns front back).intact (Nat.le_refl 1)
  | before heval =>
    obtain ⟨level, depth, -, henv, hpos, -⟩ := heval.fits
    exact henv.intact hpos
  | after fuel heval =>
    obtain ⟨level, depth, hform, henv, hpos, hdepth⟩ := heval.fits
    exact ((eval_traces fuel _ hform hpos hdepth).env _ henv).intact hpos

theorem Gives.intact {value : Value} (h : Gives runs value) : value.Intact := by
  cases h with
  | form heval hvalue =>
    obtain ⟨level, depth, hform, henv, hpos, hdepth⟩ := heval.fits
    exact ((eval_traces _ _ hform hpos hdepth).value _ value henv hvalue).intact
  | @run front back fuel source hruns hvalue =>
    subst hruns
    have hsource : source ∈ sourcesOf (front ++ (fuel, source) :: back) := by simp
    have henv := Env.traced_afterRuns front ((fuel, source) :: back)
    exact ((run_traced hsource henv).2 value hvalue).intact

theorem Calls.intact {params : List String} {body : List Form} {scope : Env}
    {values : List Value} (h : Calls runs params body scope values) :
    Closure.CallIntact params body scope values := by
  obtain ⟨head, args, span, env, env₁, env₂, heval, ⟨fuel, events, hhead⟩, -, -⟩ := h
  have hvalue : (eval fuel head env).result = .ok (.closure params body scope) :=
    congrArg Outcome.result hhead
  have hclosure := (Gives.form (heval.visitsNext .head) hvalue).intact
  exact Closure.callIntact params scope values hclosure.of_closure.1.1

end Session

/-- The state of the machine after running source texts one after the other. -/
def Machine.afterRuns {σ : Type} (sink : Sink σ) (st : State σ) (runs : List (Nat × String)) :
    State σ :=
  runs.foldl (fun st (fuel, source) => (run sink fuel source st).2) st

theorem Machine.afterRuns_eq {σ : Type} (sink : Sink σ) (runs : List (Nat × String)) (env : Env)
    (s : σ) : ∃ s', afterRuns sink ⟨env.frames, s⟩ runs = ⟨(env.afterRuns runs).frames, s'⟩ := by
  induction runs generalizing env s with
  | nil => exact ⟨s, rfl⟩
  | cons first rest ih =>
    obtain ⟨fuel, source⟩ := first
    obtain ⟨s', hrest⟩ := ih (SnapLisp.run fuel source env).env
      (sink.receiveAll s (SnapLisp.run fuel source env).events)
    refine ⟨s', ?_⟩
    show afterRuns sink (run sink fuel source ⟨env.frames, s⟩).2 rest = _
    rw [run_follows sink fuel source env s]
    exact hrest

/-- How a machine ends that breaks no rule: it has a value, or stops for the sake of the script or
for lack of fuel, with a stack that has a frame. -/
structure Machine.Sound {σ : Type} (ended : Except Stop Value × State σ) : Prop where
  not_noFrame : ended.1 ≠ .error .noFrame
  not_crash : ∀ c, ended.1 ≠ .error (.halt (.crash c))
  stack : ended.2.stack ≠ []

theorem Machine.run_sound {σ : Type} (sink : Sink σ) (runs : List (Nat × String)) (fuel : Nat)
    (source : String) (env : Env) (s : σ) :
    Sound (run sink fuel source (afterRuns sink ⟨env.frames, s⟩ runs)) := by
  obtain ⟨s', hstate⟩ := afterRuns_eq sink runs env s
  rw [hstate, run_follows]
  constructor
  · cases (SnapLisp.run fuel source (env.afterRuns runs)).result <;> exact nofun
  · intro c hcrash
    refine (run_safe fuel source).not_crash (env.afterRuns runs) c ?_
    cases hresult : (SnapLisp.run fuel source (env.afterRuns runs)).result with
    | ok value => rw [hresult] at hcrash; cases hcrash
    | error halt => rw [hresult] at hcrash; cases hcrash; rfl
  · exact List.cons_ne_nil _ _

/-- **Nothing breaks.** Whatever text is read, every offset lies inside it and its end is found at
its last byte; whatever tokens are read that end in the end-of-input token, every index lies inside
them. Whatever is run in a session, no stack is without a frame, no run ends with a broken rule,
closures have a body, and the frame of a call is there when the body starts and when it is done. -/
theorem library_unbroken :
    (∀ text, TokenStream.readByOffset text = (TokenStream.ofBytes text).mapError .error ∧
      ∀ s, TokenStream.ofBytes text = .ok s → s.eof.start.offset = text.length) ∧
    (∀ tokens, Script.Terminated tokens → ∃ r, Script.ofTokenList tokens = .ok r ∧
      Script.readByIndex tokens = r.mapError .error) ∧
    ∀ runs : List (Nat × String),
      (∀ (σ : Type) (sink : Sink σ) s fuel source, Machine.Sound (Machine.run sink fuel source
        (Machine.afterRuns sink ⟨Env.standard.frames, s⟩ runs))) ∧
      (∀ fuel source c, (run fuel source (Env.standard.afterRuns runs)).result ≠
        .error (.crash c)) ∧
      (∀ env, Session.Holds runs env → env.Intact) ∧
      (∀ value, Session.Gives runs value → value.Intact) ∧
      ∀ params body scope values, Session.Calls runs params body scope values →
        Closure.CallIntact params body scope values :=
  ⟨fun text => ⟨TokenStream.readByOffset_eq text, fun _ => TokenStream.eof_of_ofBytes⟩,
    fun _ => Script.readByIndex_eq, fun runs =>
      ⟨fun _ sink s fuel source => Machine.run_sound sink runs fuel source .standard s,
      fun fuel source => (run_safe fuel source).not_crash _,
      fun _ => Session.Holds.intact, fun _ => Session.Gives.intact,
      fun _ _ _ _ => Session.Calls.intact⟩⟩

/-- A text that ends in a blank on its second line, tokens with an end in the middle, and a run that
calls the closure of another run. -/
theorem library_unbroken_call :
    let place (offset : Nat) : Position := ⟨offset, 1, offset + 1⟩
    let body : List Form := [.symbol "x" ⟨place 14, place 15⟩]
    let tokens : List Token :=
      [⟨.eof, .point .first⟩, ⟨.rightParen, .point .first⟩, ⟨.eof, .point .first⟩]
    let runs := [(4, "(let f (fun x x))"), (2, "(f list)")]
    (∃ s, TokenStream.ofBytes (Bytes.utf8 "(f\n list) ") = .ok s ∧ s.eof.start.offset = 10) ∧
      Script.readByIndex tokens = .ok ⟨[], .point .first⟩ ∧
      (Env.standard.afterRuns runs).Intact ∧ (Value.builtin .list).Intact ∧
      Session.Calls runs ["x"] body Env.standard [.builtin .list] ∧
      Closure.CallIntact ["x"] body Env.standard [.builtin .list] := by
  intro place body tokens runs
  let front : List (Nat × String) := [(4, "(let f (fun x x))")]
  let head : Form := .symbol "f" ⟨place 1, place 2⟩
  let argument : Form := .symbol "list" ⟨place 3, place 7⟩
  let call : Form := .list [head, argument] ⟨place 0, place 8⟩
  obtain ⟨hbytes, htokens, hruns⟩ := library_unbroken
  obtain ⟨-, -, hholds, hgives, hcalls⟩ := hruns runs
  have hf : (Env.standard.afterRuns front).lookup "f" =
      some (.closure ["x"] body Env.standard) := by cbv
  have hlist : (Env.standard.afterRuns front).lookup "list" = some (.builtin .list) := by cbv
  have hsymbol {name : String} {v : Value} (span : Span)
      (h : (Env.standard.afterRuns front).lookup name = some v) :
      eval 1 (.symbol name span) (Env.standard.afterRuns front) =
        ⟨.ok v, Env.standard.afterRuns front, []⟩ := by
    simp [eval_symbol, Action.bind_apply, Env.get, h]
  have hcall : Session.Calls runs ["x"] body Env.standard [.builtin .list] := by
    have hscript : Script.ofString "(f list)" = .ok ⟨[call], ⟨place 0, place 8⟩⟩ := by cbv
    have heval : Session.Evaluates runs call (Env.standard.afterRuns front) :=
      ⟨front, 2, _, [], _, call, _, rfl, hscript, .here, .refl _ _⟩
    have hargs : Action.all (eval 1) [argument] (Env.standard.afterRuns front) =
        ⟨.ok [.builtin .list], Env.standard.afterRuns front, []⟩ := by
      rw [Action.all_cons, Action.bind_of_ok (hsymbol _ hlist)]
      rfl
    exact ⟨_, _, _, _, _, _, heval, ⟨1, _, hsymbol _ hf⟩, rfl, 1, _, hargs⟩
  have hresult : (run 2 "(f list)" (Env.standard.afterRuns front)).result =
      .ok (.builtin .list) := by cbv
  obtain ⟨s, hs⟩ : ∃ s, TokenStream.ofBytes (Bytes.utf8 "(f\n list) ") = .ok s := ⟨_, by cbv⟩
  obtain ⟨r, hr, hread⟩ := htokens tokens rfl
  cases hr
  have hsplit : runs = front ++ (2, "(f list)") :: [] := rfl
  exact ⟨⟨s, hs, (hbytes _).2 s hs⟩, hread, hholds _ (.between (List.append_nil _).symm),
    hgives _ (.run hsplit hresult), hcall, hcalls _ _ _ _ hcall⟩

end SnapLisp
