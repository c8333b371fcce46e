import SnapLisp.Proofs.Evaluation.Relation
import SnapLisp.Proofs.Value.Respanned

/-!
# Evaluation and spans

Evaluation reads no span; it only hands them on, to errors and into closures. So forms that differ
in their spans lead from environments that differ in spans to outcomes that do (`eval_respanned`),
and what is printed is the same.
-/

namespace SnapLisp

/-- One of the ways in which spans may differ. -/
def Span.Moves (ways : Set (Span → Span → Prop)) (s s' : Span) : Prop := ∃ R ∈ ways, R s s'

/-- The same reason to stop, but for spans. -/
inductive Halt.Respanned (R : Span → Span → Prop) : Halt → Halt → Prop where
  | error {e e' : ScriptError} : e.Respanned R e' → Respanned R (.error e) (.error e')
  | crash (c : Crash) : Respanned R (.crash c) (.crash c)
  | outOfFuel : Respanned R .outOfFuel .outOfFuel

/-- The same event, but for the span that an error blames. -/
inductive Event.Respanned (R : Span → Span → Prop) : Event → Event → Prop where
  | log (messages : List String) : Respanned R (.log messages) (.log messages)
  | fail {e e' : ScriptError} : e.Respanned R e' → Respanned R (.fail e) (.fail e')

/-- The two runs look the same but for spans. -/
def Likeness.respanned (ways : Set (Span → Span → Prop)) : Likeness :=
  ⟨Halt.Respanned (Span.Moves ways), Event.Respanned (Span.Moves ways)⟩

theorem Likeness.keepsFuel_respanned (ways : Set (Span → Span → Prop)) :
    (respanned ways).KeepsFuel := by
  intro h h' hh
  cases hh <;> simp

/-- An error is told or not, whatever it blames. -/
theorem Likeness.tellsErrors_respanned (ways : Set (Span → Span → Prop)) :
    (respanned ways).TellsErrors := by
  intro h h' hh
  cases hh with
  | @error e e' he => exact .inl ⟨e, e', rfl, rfl, .fail he⟩
  | crash | outOfFuel => exact .inr fun e => ⟨nofun, nofun⟩

variable {ways : Set (Span → Span → Prop)} {R : Span → Span → Prop}

theorem Event.messages_eq_of_respanned {e e' : Event} (h : e.Respanned R e') :
    e.messages = e'.messages := by
  cases h <;> rfl

/-! ## Plans -/

/-- The same way to conclude an application, but for the spans of the forms in it. Arithmetic gets
numbers only, so it has no span to blame. -/
inductive Conclusion.Respanned (ways : Set (Span → Span → Prop)) : Conclusion → Conclusion → Prop
    where
  | call (params : List String) {R : Span → Span → Prop} {body body' : List Form}
      {scope scope' : Env} :
      R ∈ ways → List.Forall₂ (Form.Respanned R) body body' → Env.Respanned ways scope scope' →
        Respanned ways (.call params body scope) (.call params body' scope')
  | list : Respanned ways .list .list
  | print : Respanned ways .print .print
  | arithmetic (compute : List Float → Except ScriptError Float) :
      (∀ xs e, compute xs = .error e → e.span = none) →
        Respanned ways (.arithmetic compute) (.arithmetic compute)
  | declare (name : String) : Respanned ways (.declare name) (.declare name)
  | close (params : List String) {R : Span → Span → Prop} {body body' : List Form} :
      R ∈ ways → List.Forall₂ (Form.Respanned R) body body' →
        Respanned ways (.close params body) (.close params body')

/-- The same plan, but for spans. -/
structure Plan.Respanned (ways : Set (Span → Span → Prop)) (p q : Plan) : Prop where
  operands : ∃ R ∈ ways, List.Forall₂ (Form.Respanned R) p.operands q.operands
  conclusion : p.conclusion.Respanned ways q.conclusion

namespace Builtin

theorem parameter_respanned {f f' : Form} (h : f.Respanned R f') :
    ExceptRel (ScriptError.Respanned R) Eq (parameter f) (parameter f') := by
  cases h with
  | symbol name _ => exact .ok rfl
  | number value hspan => exact .error (.illFormedParameter _ hspan)
  | list _ hspan => exact .error (.illFormedParameter _ hspan)

theorem parameterList_respanned {fs fs' : List Form} (h : List.Forall₂ (Form.Respanned R) fs fs') :
    ExceptRel (ScriptError.Respanned R) Eq (parameterList fs) (parameterList fs') := by
  induction h with
  | nil => exact .ok rfl
  | cons hf _ ih =>
    refine (parameter_respanned hf).bind fun _ _ hname => ih.bind fun _ _ hnames => ?_
    exact .ok (congrArg₂ List.cons hname hnames)

theorem parameters_respanned {f f' : Form} (h : f.Respanned R f') :
    ExceptRel (ScriptError.Respanned R) Eq (parameters f) (parameters f') := by
  cases h with
  | symbol name _ => exact .ok rfl
  | number value hspan => exact .error (.illFormedParameter _ hspan)
  | list hitems _ => exact parameterList_respanned hitems

/-- Arithmetic blames no span. -/
theorem span_of_reduce {op : Float → Float → Float} {lone : Float → Float} {xs : List Float}
    {e : ScriptError} (h : reduce op lone xs = .error e) : e.span = none := by
  rw [reduce_eq_error h]
  rfl

theorem span_of_numbers {vs : List Value} {e : ScriptError} (h : numbers vs = .error e) :
    e.span = none := by
  obtain ⟨got, rfl⟩ := numbers_eq_error h
  rfl

theorem span_of_arithmetic {compute : List Float → Except ScriptError Float}
    (hcompute : ∀ xs e, compute xs = .error e → e.span = none) {vs : List Value} {e : ScriptError}
    (h : (numbers vs).bind compute = .error e) : e.span = none := by
  cases hnumbers : numbers vs with
  | error e' =>
    rw [hnumbers] at h
    cases h
    exact span_of_numbers hnumbers
  | ok xs =>
    rw [hnumbers] at h
    exact hcompute xs e h

/-- An operator makes of forms that differ in their spans plans that do, or the same error. -/
theorem plan_respanned (op : Builtin) (hways : R ∈ ways) {span span' : Span} (hspan : R span span')
    {args args' : List Form} (hargs : List.Forall₂ (Form.Respanned R) args args') :
    ExceptRel (ScriptError.Respanned R) (Plan.Respanned ways) (op.plan span args)
      (op.plan span' args') := by
  cases op with
  | list => exact .ok ⟨⟨R, hways, hargs⟩, .list⟩
  | print => exact .ok ⟨⟨R, hways, hargs⟩, .print⟩
  | add | multiply => exact .ok ⟨⟨R, hways, hargs⟩, .arithmetic _ nofun⟩
  | subtract | divide => exact .ok ⟨⟨R, hways, hargs⟩, .arithmetic _ fun _ _ => span_of_reduce⟩
  | lambda =>
    cases hargs with
    | nil => exact .error (.illFormedSpecial _ (.some hspan))
    | cons hparams hbody =>
      cases hbody with
      | nil => exact .error (.illFormedSpecial _ (.some hspan))
      | cons hfirst hrest =>
        refine (parameters_respanned hparams).map fun names names' hnames => ?_
        exact ⟨⟨R, hways, .nil⟩, hnames ▸ .close names hways (.cons hfirst hrest)⟩
  | define =>
    cases hargs with
    | nil => exact .error (.illFormedSpecial _ (.some hspan))
    | cons htarget hrest =>
      cases hrest with
      | nil => cases htarget <;> exact .error (.illFormedSpecial _ (.some hspan))
      | cons hvalue hmore =>
        cases hmore with
        | cons => cases htarget <;> exact .error (.illFormedSpecial _ (.some hspan))
        | nil =>
          cases htarget with
          | symbol name _ => exact .ok ⟨⟨R, hways, .cons hvalue .nil⟩, .declare name⟩
          | number _ htarget => exact .error (.illFormedSpecial _ (.some htarget))
          | list _ htarget => exact .error (.illFormedSpecial _ (.some htarget))

end Builtin

/-- Values that differ in spans have plans that do, or the same error. -/
theorem Value.Respanned.plan {f g : Value} (h : f.Respanned ways g) (hways : R ∈ ways)
    {head head' span span' : Span} (hhead : R head head') (hspan : R span span')
    {args args' : List Form} (hargs : List.Forall₂ (Form.Respanned R) args args') :
    ExceptRel (ScriptError.Respanned R) (Plan.Respanned ways) (f.plan head span args)
      (g.plan head' span' args') := by
  cases h with
  | closure params hbodies hbody hscope =>
    rw [Value.plan, Value.plan, ← hargs.length_eq]
    split
    · exact .error (.spanless rfl)
    · exact .ok ⟨⟨R, hways, hargs⟩, .call params hbodies hbody hscope⟩
  | builtin op => exact op.plan_respanned hways hspan hargs
  | number | nil | list => exact .error (.notProcedure (.some hhead))

/-! ## Evaluation -/

/-- What evaluates forms that differ in their spans alike. -/
def Evaluator.IgnoresSpans (ways : Set (Span → Span → Prop)) (evaluate : Evaluator) : Prop :=
  ∀ R ∈ ways, ∀ f f', Form.Respanned R f f' →
    (evaluate f).Rel (.respanned ways) (Env.Respanned ways) (Value.Respanned ways) (evaluate f')

variable {evaluate : Evaluator}

theorem Conclusion.Respanned.run (h : evaluate.IgnoresSpans ways) {c d : Conclusion}
    (hcd : c.Respanned ways d) {vs ws : List Value}
    (hvs : List.Forall₂ (Value.Respanned ways) vs ws) :
    (c.run evaluate vs).Rel (.respanned ways) (Env.Respanned ways) (Value.Respanned ways)
      (d.run evaluate ws) := by
  cases hcd with
  | call params hways hbody hscope =>
    exact .within (Env.respanned_callEnv hscope params hvs) (.last (h _ hways) hbody .nil)
  | list => exact .pure (.list hvs)
  | print =>
    exact run_print_rel (Value.SameOutline.map_text_eq (Value.Respanned.outlines hvs)) .log .nil
  | arithmetic compute hcompute =>
    exact run_arithmetic_rel (Value.SameOutline.numbers_eq (Value.Respanned.outlines hvs))
      (fun _ he => .error (.spanless (Builtin.span_of_arithmetic hcompute he))) .number
  | close params hways hbody =>
    exact .bind .getEnv fun env₁ env₂ henv => .pure (.closure params hways hbody henv)
  | declare name =>
    exact run_declare_rel (fun _ _ henv => henv.binds_eq name)
      (fun _ _ henv => henv.assign name (headD_rel .nil hvs)) (.error (.spanless rfl)) .nil

theorem Plan.Respanned.run (h : evaluate.IgnoresSpans ways) {p q : Plan}
    (hpq : p.Respanned ways q) :
    (p.run evaluate).Rel (.respanned ways) (Env.Respanned ways) (Value.Respanned ways)
      (q.run evaluate) := by
  obtain ⟨R, hways, hoperands⟩ := hpq.operands
  exact .bind (.all (h R hways) hoperands) fun _ _ hvs => hpq.conclusion.run h hvs

/-- **Spans.** Forms that differ in their spans are evaluated alike. -/
theorem eval_respanned (fuel : Nat) : (eval fuel).IgnoresSpans ways := by
  induction fuel with
  | zero =>
    intro R _ f f' _
    rw [eval_zero, eval_zero]
    exact .halt .outOfFuel
  | succ fuel ih =>
    intro R hways f f' hf
    cases hf with
    | number value _ => exact .pure (.number value)
    | symbol name hspan =>
      rw [eval_symbol, eval_symbol]
      refine .bind .getEnv fun env₁ env₂ henv => .ofExcept ?_
      exact Env.get_rel (henv.lookup name) (.error (.unbound name ⟨R, hways, hspan⟩))
    | list hitems hspan =>
      cases hitems with
      | nil => exact .halt (.error (.illFormed (.some ⟨R, hways, hspan⟩)))
      | cons hhead hargs =>
        rw [eval_plan, eval_plan]
        refine .bind (ih R hways _ _ hhead) fun f g hfg => .bind (V := Plan.Respanned ways) ?_
          fun p q hpq => hpq.run ih
        refine .ofExcept ((hfg.plan hways hhead.span hspan hargs).mono (fun e e' he => ?_)
          fun _ _ hpq => hpq)
        exact .error (he.mono fun s s' hs => ⟨R, hways, hs⟩)

/-! ## Runs -/

theorem runForms_respanned (hways : R ∈ ways) {forms forms' : List Form}
    (hforms : List.Forall₂ (Form.Respanned R) forms forms') {v v' : Value}
    (hv : v.Respanned ways v') (fuel : Nat) :
    (runForms v forms fuel).Rel (.respanned ways) (Env.Respanned ways) (Value.Respanned ways)
      (runForms v' forms' fuel) :=
  .reporting (Likeness.tellsErrors_respanned ways) (.last (eval_respanned fuel R hways) hforms hv)

/-- Two runs that ended alike, but for spans: the same is printed, the values are shown by the same
text, and an error is told in the same words. -/
structure Outcome.Respanned (ways : Set (Span → Span → Prop)) (o o' : Outcome Value) : Prop where
  printed : o.printed = o'.printed
  result : (∃ v v', o.result = .ok v ∧ o'.result = .ok v' ∧ v.Respanned ways v' ∧
      v.text = v'.text) ∨
    ∃ e e', o.result = .error (.error e) ∧ o'.result = .error (.error e') ∧
      e.Respanned (Span.Moves ways) e' ∧ e.message = e'.message
  env : Env.Respanned ways o.env o'.env

theorem Outcome.Rel.printed_eq {E : Env → Env → Prop} {V : Value → Value → Prop}
    {o o' : Outcome Value} (h : o.Rel (.respanned ways) E V o') : o.printed = o'.printed := by
  have hevents := h.events
  rw [printed, printed]
  generalize o.events = events, o'.events = events' at hevents
  induction hevents with
  | nil => rfl
  | cons he _ ih =>
    rw [List.flatMap_cons, List.flatMap_cons, ih, Event.messages_eq_of_respanned he]

theorem Outcome.Rel.respanned {o o' : Outcome Value}
    (h : o.Rel (.respanned ways) (Env.Respanned ways) (Value.Respanned ways) o')
    (ho : (∃ v, o.result = .ok v) ∨ ∃ e, o.result = .error (.error e)) : o.Respanned ways o' := by
  refine ⟨h.printed_eq, ?_, h.env⟩
  rcases h.result_cases ho with ⟨v, v', hv, hv', hvv'⟩ | ⟨e, _, he, he', hhalt⟩
  · exact .inl ⟨v, v', hv, hv', hvv', hvv'.text_eq⟩
  · cases hhalt with
    | error hee' => exact .inr ⟨e, _, he, he', hee', hee'.message_eq⟩

section Runs

variable {forms forms' : List Form} {v v' : Value} {env env' : Env}

/-- Forms that differ in their spans are run to an end in both cases or in neither. -/
theorem finishes_runForms_iff (hways : R ∈ ways)
    (hforms : List.Forall₂ (Form.Respanned R) forms forms') (hv : v.Respanned ways v')
    (henv : Env.Respanned ways env env') :
    Finishes (runForms v forms) env ↔ Finishes (runForms v' forms') env' :=
  finishes_iff_of_rel (Likeness.keepsFuel_respanned ways) fun fuel =>
    runForms_respanned hways hforms hv fuel env env' henv

theorem EndsWith.runForms_respanned (hways : R ∈ ways)
    (hforms : List.Forall₂ (Form.Respanned R) forms forms') (hv : v.Respanned ways v')
    (henv : Env.Respanned ways env env') {o o' : Outcome Value}
    (ho : EndsWith (runForms v forms) env o) (ho' : EndsWith (runForms v' forms') env' o') :
    o.Respanned ways o' := by
  have hrel (fuel : Nat) := SnapLisp.runForms_respanned hways hforms hv fuel env env' henv
  exact (EndsWith.rel (Likeness.keepsFuel_respanned ways) (fuelExtends_runForms v' forms') hrel
    ho ho').respanned (runForms_result_cases ho)

end Runs

end SnapLisp
