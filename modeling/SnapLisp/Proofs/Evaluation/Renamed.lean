import SnapLisp.Proofs.Evaluation.Relation
import SnapLisp.Proofs.Value.Renamed

/-!
# Evaluation and names

No name is special but by what binds it: `let` and `fun` too are names of values, which may be bound
under others. Evaluation compares names in two places only, where it looks one up and where it binds
one, and a `Renaming` is respected in both. So a renamed form leads from the renamed environment to
the renamed outcome (`eval_renamed`), and a renamed script runs as the script does, but for names
(`interpret_renamed`). What is printed are texts, in which the new names of parameters show.
-/

namespace SnapLisp

variable {names : Set String} {r : String → String}

/-- The second is the image of the first, which has the property. -/
def IsImage {α β : Type} (P : α → Prop) (f : α → β) (a : α) (b : β) : Prop := P a ∧ b = f a

theorem forall₂_isImage_iff {α β : Type} {P : α → Prop} {f : α → β} {as : List α} {bs : List β} :
    List.Forall₂ (IsImage P f) as bs ↔ (∀ a ∈ as, P a) ∧ bs = as.map f := by
  have himage : List.Forall₂ (fun a b => b = f a) as bs ↔ bs = as.map f := by
    rw [eq_comm, ← List.forall₂_eq_eq_eq, List.forall₂_map_left_iff]
    simp only [eq_comm]
  rw [← himage]
  exact List.forall₂_and_left as bs

/-- Values with names among the given ones, and the same values renamed. -/
abbrev Value.Renamed (names : Set String) (r : String → String) : Value → Value → Prop :=
  IsImage (Value.NamesIn names) (Value.rename r)

/-- Environments with names among the given ones, and the same environments renamed. -/
abbrev Env.Renamed (names : Set String) (r : String → String) : Env → Env → Prop :=
  IsImage (Env.NamesIn names) (Env.rename r)

/-- The same reason to stop, with a new name where it is about a name. -/
def Halt.rename (r : String → String) : Halt → Halt
  | .error e => .error (e.rename r)
  | h => h

/-- The texts of values and of the same values renamed, or an error and the same error renamed. -/
inductive Event.Renamed (names : Set String) (r : String → String) : Event → Event → Prop where
  | log (vs : List Value) : (∀ v ∈ vs, v.NamesIn names) →
      Renamed names r (.log (vs.map Value.text)) (.log ((vs.map (Value.rename r)).map Value.text))
  | fail (e : ScriptError) : Renamed names r (.fail e) (.fail (e.rename r))

/-- The two runs look the same but for names. -/
def Likeness.renamed (names : Set String) (r : String → String) : Likeness :=
  ⟨fun h h' => h' = h.rename r, Event.Renamed names r⟩

theorem Likeness.keepsFuel_renamed : (renamed names r).KeepsFuel := by
  rintro h _ rfl
  cases h <;> simp [Halt.rename]

theorem Likeness.tellsErrors_renamed : (renamed names r).TellsErrors := by
  rintro h _ rfl
  cases h with
  | error e => exact .inl ⟨e, e.rename r, rfl, rfl, .fail e⟩
  | crash | outOfFuel => exact .inr fun e => ⟨nofun, nofun⟩

/-! ## Plans -/

/-- The conclusion with all names renamed. -/
def Conclusion.rename (r : String → String) : Conclusion → Conclusion
  | .call params body scope => .call (params.map r) (body.map (Form.rename r)) (scope.rename r)
  | .declare name => .declare (r name)
  | .close params body => .close (params.map r) (body.map (Form.rename r))
  | c => c

/-- The plan with all names renamed. -/
def Plan.rename (r : String → String) (p : Plan) : Plan :=
  ⟨p.operands.map (Form.rename r), p.conclusion.rename r⟩

/-- All names of the conclusion are among the given ones. The errors of arithmetic have none. -/
inductive Conclusion.NamesIn (names : Set String) : Conclusion → Prop where
  | call {params : List String} {body : List Form} {scope : Env} :
      (Value.closure params body scope).NamesIn names → NamesIn names (.call params body scope)
  | list : NamesIn names .list
  | print : NamesIn names .print
  | arithmetic {compute : List Float → Except ScriptError Float} :
      (∀ xs e, compute xs = .error e → ∀ r, e.rename r = e) → NamesIn names (.arithmetic compute)
  | declare {name : String} : name ∈ names → NamesIn names (.declare name)
  | close {params : List String} {body : List Form} :
      (∀ param ∈ params, param ∈ names) → (∀ form ∈ body, form.NamesIn names) →
        NamesIn names (.close params body)

/-- All names of the plan are among the given ones. -/
structure Plan.NamesIn (names : Set String) (p : Plan) : Prop where
  operands : ∀ form ∈ p.operands, form.NamesIn names
  conclusion : p.conclusion.NamesIn names

namespace Builtin

theorem parameter_renamed {f : Form} (hf : f.NamesIn names) :
    ExceptRel (fun e e' => e' = e.rename r) (IsImage (· ∈ names) r) (parameter f)
      (parameter (f.rename r)) := by
  cases f with
  | symbol name span => exact .ok ⟨hf name (by simp [Form.symbols]), rfl⟩
  | number value span => exact .error rfl
  | list items span => exact .error rfl

theorem parameterList_renamed {fs : List Form} (hfs : ∀ f ∈ fs, f.NamesIn names) :
    ExceptRel (fun e e' => e' = e.rename r) (IsImage (∀ name ∈ ·, name ∈ names) (List.map r))
      (parameterList fs) (parameterList (fs.map (Form.rename r))) := by
  induction fs with
  | nil => exact .ok ⟨nofun, rfl⟩
  | cons f rest ih =>
    obtain ⟨hf, hrest⟩ := List.forall_mem_cons.mp hfs
    refine (parameter_renamed hf).bind fun name _ hname => (ih hrest).bind fun ps _ hps => ?_
    obtain ⟨hname, rfl⟩ := hname
    obtain ⟨hps, rfl⟩ := hps
    exact .ok ⟨List.forall_mem_cons.mpr ⟨hname, hps⟩, rfl⟩

theorem parameters_renamed {f : Form} (hf : f.NamesIn names) :
    ExceptRel (fun e e' => e' = e.rename r) (IsImage (∀ name ∈ ·, name ∈ names) (List.map r))
      (parameters f) (parameters (f.rename r)) := by
  cases f with
  | symbol name span =>
    exact .ok ⟨List.forall_mem_singleton.mpr (hf name (by simp [Form.symbols])), rfl⟩
  | number value span => exact .error rfl
  | list items span =>
    rw [Form.rename, Form.renameAll_eq_map]
    exact parameterList_renamed (Form.namesIn_list.mp hf)

/-- An operator makes of renamed forms the renamed plan, or the same error, for it reads no name. -/
theorem plan_renamed (op : Builtin) (span : Span) {args : List Form}
    (hargs : ∀ form ∈ args, form.NamesIn names) :
    ExceptRel (fun e e' => e' = e.rename r) (IsImage (Plan.NamesIn names) (Plan.rename r))
      (op.plan span args) (op.plan span (args.map (Form.rename r))) := by
  cases op with
  | list => exact .ok ⟨⟨hargs, .list⟩, rfl⟩
  | print => exact .ok ⟨⟨hargs, .print⟩, rfl⟩
  | add | multiply => exact .ok ⟨⟨hargs, .arithmetic nofun⟩, rfl⟩
  | subtract | divide =>
    refine .ok ⟨⟨hargs, .arithmetic fun xs e he => ?_⟩, rfl⟩
    rw [reduce_eq_error he]
    exact fun _ => rfl
  | lambda =>
    match args with
    | [] | [_] => exact .error rfl
    | spec :: first :: rest =>
      obtain ⟨hspec, hbody⟩ := List.forall_mem_cons.mp hargs
      refine (parameters_renamed hspec).map fun ps _ hps => ?_
      obtain ⟨hps, rfl⟩ := hps
      exact ⟨⟨nofun, .close hps hbody⟩, rfl⟩
  | define =>
    match args with
    | [] => exact .error rfl
    | [target] => cases target <;> exact .error rfl
    | target :: value :: another :: rest => cases target <;> exact .error rfl
    | [target, value] =>
      cases target with
      | number | list => exact .error rfl
      | symbol name nameSpan =>
        obtain ⟨htarget, hvalue⟩ := List.forall_mem_cons.mp hargs
        exact .ok ⟨⟨hvalue, .declare (htarget name (by simp [Form.symbols]))⟩, rfl⟩

end Builtin

/-- The renamed value has the renamed plan, or the same error. -/
theorem Value.plan_renamed {f : Value} (hf : f.NamesIn names) (head span : Span) {args : List Form}
    (hargs : ∀ form ∈ args, form.NamesIn names) :
    ExceptRel (fun e e' => e' = e.rename r) (IsImage (Plan.NamesIn names) (Plan.rename r))
      (f.plan head span args) ((f.rename r).plan head span (args.map (Form.rename r))) := by
  cases f with
  | closure params body scope =>
    rw [rename_closure, plan, plan, List.length_map, List.length_map]
    split
    · exact .error rfl
    · exact .ok ⟨⟨hargs, .call hf⟩, rfl⟩
  | builtin op => exact op.plan_renamed span hargs
  | number | nil => exact .error rfl
  | list items =>
    rw [rename_list]
    exact .error rfl

/-! ## Evaluation -/

/-- What evaluates renamed forms to what is renamed. -/
def Evaluator.RespectsNames (names : Set String) (r : String → String) (evaluate : Evaluator) :
    Prop :=
  ∀ form : Form, form.NamesIn names →
    (evaluate form).Rel (.renamed names r) (Env.Renamed names r) (Value.Renamed names r)
      (evaluate (form.rename r))

variable {evaluate : Evaluator}

theorem Evaluator.RespectsNames.forms (h : evaluate.RespectsNames names r) {forms : List Form}
    (hforms : ∀ form ∈ forms, form.NamesIn names) :
    List.Forall₂ (fun f g => (evaluate f).Rel (.renamed names r) (Env.Renamed names r)
      (Value.Renamed names r) (evaluate g)) forms (forms.map (Form.rename r)) :=
  List.forall₂_map_right_iff.mpr (List.forall₂_same.mpr fun form hmem => h form (hforms form hmem))

/-- A name is bound in the top frame if its new name is bound there after renaming. -/
theorem Env.declare_renamed (hr : Set.InjOn r names) {env : Env} (henv : env.NamesIn names)
    {name : String} (hname : name ∈ names) {v : Value} (hv : v.NamesIn names) :
    ExceptRel (fun e e' => e' = e.rename r) (Env.Renamed names r) (env.declare name v)
      ((env.rename r).declare (r name) (v.rename r)) := by
  have hbinds : Frame.binds (env.rename r).top (r name) = Frame.binds env.top name :=
    Frame.binds_rename hr (henv.keys env.top (.head _)) hname
  unfold declare Scope.declare?
  rw [hbinds]
  cases Frame.binds env.top name with
  | true => exact .error rfl
  | false => exact .ok ⟨henv.assign hname hv, Scope.assign_rename hr henv.keys hname v⟩

theorem Builtin.rename_of_arithmetic {compute : List Float → Except ScriptError Float}
    (hcompute : ∀ xs e, compute xs = .error e → ∀ r, e.rename r = e) {vs : List Value}
    {e : ScriptError} (h : (numbers vs).bind compute = .error e) : e.rename r = e := by
  cases hnumbers : numbers vs with
  | error e' =>
    rw [hnumbers] at h
    cases h
    obtain ⟨got, rfl⟩ := numbers_eq_error hnumbers
    rfl
  | ok xs =>
    rw [hnumbers] at h
    exact hcompute xs e h r

theorem Conclusion.run_renamed (hr : Set.InjOn r names) (h : evaluate.RespectsNames names r)
    {c : Conclusion} (hc : c.NamesIn names) {vs : List Value} (hvs : ∀ v ∈ vs, v.NamesIn names) :
    (c.run evaluate vs).Rel (.renamed names r) (Env.Renamed names r) (Value.Renamed names r)
      ((c.rename r).run evaluate (vs.map (Value.rename r))) := by
  have hnil : Value.Renamed names r .nil .nil := ⟨.nil, rfl⟩
  cases hc with
  | @call params body scope hclosure =>
    obtain ⟨hnames, hvalues⟩ := hclosure.of_closure
    have hscope : Env.NamesIn names scope := ⟨hnames.scope, hvalues⟩
    have hcall : Env.Renamed names r (Closure.callEnv scope params vs)
        (Closure.callEnv (scope.rename r) (params.map r) (vs.map (Value.rename r))) :=
      ⟨hscope.callEnv hnames.params hvs, Env.callEnv_rename hr hscope hnames.params vs⟩
    exact .within hcall (.last (fun _ _ hfg => hfg) (h.forms hnames.body) hnil)
  | list => exact .pure ⟨.list hvs, (Value.rename_list vs).symm⟩
  | print =>
    exact .bind (V := fun _ _ => True) (.emit (Event.Renamed.log vs hvs) trivial)
      fun _ _ _ => .pure hnil
  | arithmetic hcompute =>
    refine run_arithmetic_rel (Value.numbers_rename vs).symm (fun e he => ?_)
      fun x => ⟨.number x, rfl⟩
    exact congrArg Halt.error (Builtin.rename_of_arithmetic hcompute he).symm
  | close hparams hbody =>
    refine .bind .getEnv fun env env' henv => .pure ?_
    obtain ⟨henv, rfl⟩ := henv
    exact ⟨.closure ⟨hparams, hbody, henv.keys⟩ henv.values, (Value.rename_closure _ _ _).symm⟩
  | declare hname =>
    have hv : (vs.headD .nil).NamesIn names := by
      cases vs with
      | nil => exact .nil
      | cons v vs => exact hvs v (.head _)
    rintro env _ ⟨henv, rfl⟩
    have hdeclare := Env.declare_renamed hr henv hname hv
    rw [rename, run_declare, run_declare, Value.headD_rename]
    generalize env.declare _ _ = declared, (env.rename r).declare _ _ = declared' at hdeclare
    cases hdeclare with
    | ok henv' => exact ⟨.ok hnil, henv', .nil⟩
    | error he => exact ⟨.error (congrArg Halt.error he), ⟨henv, rfl⟩, .nil⟩

theorem Plan.run_renamed (hr : Set.InjOn r names) (h : evaluate.RespectsNames names r) {p : Plan}
    (hp : p.NamesIn names) :
    (p.run evaluate).Rel (.renamed names r) (Env.Renamed names r) (Value.Renamed names r)
      ((p.rename r).run evaluate) := by
  refine .bind (.all (fun _ _ hfg => hfg) (h.forms hp.operands)) fun vs _ hall => ?_
  obtain ⟨hvs, rfl⟩ := forall₂_isImage_iff.mp hall
  exact Conclusion.run_renamed hr h hp.conclusion hvs

/-- **Names.** The renamed form is evaluated to the renamed outcome. -/
theorem eval_renamed (hr : Set.InjOn r names) (fuel : Nat) : (eval fuel).RespectsNames names r := by
  induction fuel with
  | zero =>
    intro form _
    rw [eval_zero, eval_zero]
    exact .halt rfl
  | succ fuel ih =>
    intro form hform
    match form with
    | .number x _ => exact .pure ⟨.number x, rfl⟩
    | .symbol name span =>
      have hname : name ∈ names := hform name (by simp [Form.symbols])
      rw [Form.rename, eval_symbol, eval_symbol]
      refine .bind .getEnv fun env env' henv => .ofExcept ?_
      obtain ⟨henv, rfl⟩ := henv
      have hlookup : (env.rename r).lookup (r name) = (env.lookup name).map (Value.rename r) :=
        Scope.lookup_rename hr henv.keys hname
      unfold Env.get
      rw [hlookup]
      cases hvalue : env.lookup name with
      | none => exact .error rfl
      | some v => exact .ok ⟨henv.values.lookup hvalue, rfl⟩
    | .list [] span => exact .halt rfl
    | .list (head :: args) span =>
      obtain ⟨hhead, hargs⟩ := List.forall_mem_cons.mp (Form.namesIn_list.mp hform)
      rw [Form.rename, Form.renameAll, Form.renameAll_eq_map, eval_plan, eval_plan,
        Form.span_rename]
      refine .bind (ih head hhead) fun f _ hf => ?_
      obtain ⟨hf, rfl⟩ := hf
      have hplan := Value.plan_renamed (r := r) hf head.span span hargs
      refine .bind (.ofExcept (hplan.mono (fun _ _ => congrArg Halt.error) fun _ _ hp => hp))
        fun p _ hp => ?_
      obtain ⟨hp, rfl⟩ := hp
      exact Plan.run_renamed hr ih hp

/-! ## Runs -/

/-- The second run ended as the first one did, but for names: with the renamed value or the renamed
error, in the renamed environment, and it printed the texts of the renamed values. -/
structure Outcome.Renamed (names : Set String) (r : String → String) (o o' : Outcome Value) : Prop
    where
  result : (∃ v, o.result = .ok v ∧ o'.result = .ok (v.rename r)) ∨
    ∃ e, o.result = .error (.error e) ∧ o'.result = .error (.error (e.rename r))
  env : o'.env = o.env.rename r
  events : List.Forall₂ (Event.Renamed names r) o.events o'.events

theorem Outcome.Rel.renamed {o o' : Outcome Value}
    (h : o.Rel (.renamed names r) (Env.Renamed names r) (Value.Renamed names r) o')
    (ho : (∃ v, o.result = .ok v) ∨ ∃ e, o.result = .error (.error e)) : o.Renamed names r o' := by
  refine ⟨?_, h.env.2, h.events⟩
  rcases h.result_cases ho with ⟨v, _, hv, hv', -, rfl⟩ | ⟨e, _, he, he', rfl⟩
  · exact .inl ⟨v, hv, hv'⟩
  · exact .inr ⟨e, he, he'⟩

theorem runForms_renamed (hr : Set.InjOn r names) {forms : List Form}
    (hforms : ∀ form ∈ forms, form.NamesIn names) {v : Value} (hv : v.NamesIn names) (fuel : Nat) :
    (runForms v forms fuel).Rel (.renamed names r) (Env.Renamed names r) (Value.Renamed names r)
      (runForms (v.rename r) (forms.map (Form.rename r)) fuel) :=
  .reporting Likeness.tellsErrors_renamed
    (.last (fun _ _ hfg => hfg) ((eval_renamed hr fuel).forms hforms) ⟨hv, rfl⟩)

/-- **Renaming.** A script and the script renamed both end or both run forever in the standard
environment. They end with the same value or error, in the same environment, and print the same,
but for the names. -/
theorem interpret_renamed {names : Set String} (r : Renaming names) (script : Script)
    (hscript : ∀ form ∈ script.forms, form.NamesIn names) :
    (Finishes (interpret · (script.rename r.map)) Env.standard ↔
        Finishes (interpret · script) Env.standard) ∧
      ∀ o o', EndsWith (interpret · script) Env.standard o →
        EndsWith (interpret · (script.rename r.map)) Env.standard o' →
          o.Renamed names r.map o' := by
  have hstandard : Env.Renamed names r.map Env.standard Env.standard :=
    ⟨Env.standard_namesIn r, (Env.standard_rename r).symm⟩
  have hrel (fuel : Nat) :
      (interpret fuel script Env.standard).Rel (.renamed names r.map) (Env.Renamed names r.map)
        (Value.Renamed names r.map) (interpret fuel (script.rename r.map) Env.standard) :=
    runForms_renamed r.injOn hscript .nil fuel _ _ hstandard
  refine ⟨(finishes_iff_of_rel Likeness.keepsFuel_renamed hrel).symm, fun o o' ho ho' => ?_⟩
  have hends := EndsWith.rel Likeness.keepsFuel_renamed (fuelExtends_interpret _) hrel ho ho'
  exact hends.renamed (runForms_result_cases ho)

/-- Parameters that change places show in what is printed and in the error. -/
theorem interpret_renamed_swap :
    let span : Span := .point .first
    let closure : Form := .list [.symbol "fun" span, .symbol "x" span, .symbol "y" span] span
    let script : Script := ⟨[.list [.symbol "print" span, closure] span, .symbol "x" span], span⟩
    let r : Renaming Set.univ :=
      .swap (fun _ => Set.mem_univ _) "x" "y" (by rintro ⟨⟩ <;> decide) (by rintro ⟨⟩ <;> decide)
    let o := interpret 3 script Env.standard
    let o' := interpret 3 (script.rename r.map) Env.standard
    (∀ form ∈ script.forms, form.NamesIn Set.univ) ∧ o.Renamed Set.univ r.map o' ∧
      o.printed = ["(fun (x) ...)"] ∧ o'.printed = ["(fun (y) ...)"] ∧
      o'.result = .error (.error (.unbound "y" span)) := by
  intro span closure script r o o'
  have hscript : ∀ form ∈ script.forms, form.NamesIn Set.univ :=
    fun _ _ name _ => Set.mem_univ name
  have ho : EndsWith (interpret · script) Env.standard o := ⟨nofun, 3, rfl⟩
  have ho' : EndsWith (interpret · (script.rename r.map)) Env.standard o' := ⟨nofun, 3, rfl⟩
  exact ⟨hscript, (interpret_renamed r script hscript).2 o o' ho ho', rfl, rfl, rfl⟩

end SnapLisp
