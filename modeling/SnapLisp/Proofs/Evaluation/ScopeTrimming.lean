import SnapLisp.Proofs.Evaluation.Fuel
import SnapLisp.Proofs.Evaluation.Relation
import SnapLisp.Proofs.Value.Similarity

/-!
# What a scope binds beyond the names in use

Evaluation depends on an environment only through the names that occur in the form. Two
environments that agree on these (`Env.Agree`) lead to the same strings printed, to the same error
or to similar values, and to environments that agree again (`eval_agree`). So a closure may as well
own any other scope that gives the names in its body the same values.
-/

namespace SnapLisp

/-! ## Plans of similar values -/

/-- Two ways to conclude an application that differ at most in the scope of the closure called, and
use no names but the given ones. -/
inductive Conclusion.Similar (names : List String) : Conclusion → Conclusion → Prop where
  | call (params : List String) {body : List Form} {scope₁ scope₂ : Env} :
    (∀ name ∈ Form.symbolsAll body,
      Option.Rel Value.Similar (scope₁.lookup name) (scope₂.lookup name)) →
    Similar names (.call params body scope₁) (.call params body scope₂)
  | list : Similar names .list .list
  | print : Similar names .print .print
  | arithmetic (compute : List Float → Except ScriptError Float) :
    Similar names (.arithmetic compute) (.arithmetic compute)
  | declare {name : String} : name ∈ names → Similar names (.declare name) (.declare name)
  | close (params : List String) {body : List Form} :
    Form.symbolsAll body ⊆ names → Similar names (.close params body) (.close params body)

/-- Two plans with the same operands and similar conclusions that use no names but the given
ones. -/
structure Plan.Similar (names : List String) (p q : Plan) : Prop where
  operands : p.operands = q.operands
  symbols : Form.symbolsAll p.operands ⊆ names
  conclusion : p.conclusion.Similar names q.conclusion

variable {names : List String}

/-- An operator makes no plan that uses a name from elsewhere than the argument forms. -/
theorem Builtin.plan_similar (op : Builtin) (span : Span) {args : List Form}
    (hargs : Form.symbolsAll args ⊆ names) :
    ExceptRel Eq (Plan.Similar names) (op.plan span args) (op.plan span args) := by
  cases op with
  | define =>
    simp only [plan]
    split
    · simp only [Form.symbolsAll, Form.symbols, List.append_nil, List.append_subset] at hargs
      exact .ok ⟨rfl, by simpa [Form.symbolsAll] using hargs.2, .declare (hargs.1 (by simp))⟩
    · exact .error rfl
    · exact .error rfl
  | lambda =>
    simp only [plan]
    split
    · rename_i params first rest
      have hbody : Form.symbolsAll (first :: rest) ⊆ names :=
        List.Subset.trans (List.subset_append_right params.symbols _) hargs
      cases parameters params with
      | error e => exact .error rfl
      | ok ps => exact .ok ⟨rfl, List.nil_subset _, .close ps hbody⟩
    · exact .error rfl
  | list => exact .ok ⟨rfl, hargs, .list⟩
  | print => exact .ok ⟨rfl, hargs, .print⟩
  | add | subtract | multiply | divide => exact .ok ⟨rfl, hargs, .arithmetic _⟩

/-- Similar values have similar plans for the same arguments, or the same error. -/
theorem Value.Similar.plan {f g : Value} (h : f.Similar g) (head span : Span) {args : List Form}
    (hargs : Form.symbolsAll args ⊆ names) :
    ExceptRel Eq (Plan.Similar names) (f.plan head span args) (g.plan head span args) := by
  cases h with
  | closure hscope =>
    simp only [Value.plan]
    split
    · exact .error rfl
    · exact .ok ⟨rfl, hargs, .call _ hscope⟩
  | builtin op => exact op.plan_similar span hargs
  | number x | nil | list _ => exact .error rfl

/-! ## Evaluation in environments that agree -/

variable {evaluate : Evaluator}

/-- What evaluates forms alike in environments that agree on their names. -/
def Evaluator.Respects (evaluate : Evaluator) : Prop :=
  ∀ form names, form.symbols ⊆ names →
    (evaluate form).Rel .same (Env.Agree names) Value.Similar (evaluate form)

theorem Evaluator.Respects.forms (h : evaluate.Respects) {forms : List Form}
    (hforms : Form.symbolsAll forms ⊆ names) :
    List.Forall₂ (fun f g => (evaluate f).Rel .same (Env.Agree names) Value.Similar (evaluate g))
      forms forms :=
  List.forall₂_same.mpr fun form hmem => h form names fun _ hname =>
    hforms (Form.mem_symbolsAll.mpr ⟨form, hmem, hname⟩)

theorem Conclusion.Similar.run (h : evaluate.Respects) {c d : Conclusion}
    (hcd : c.Similar names d) {vs ws : List Value} (hvs : List.Forall₂ Value.Similar vs ws) :
    (c.run evaluate vs).Rel .same (Env.Agree names) Value.Similar (d.run evaluate ws) := by
  cases hcd with
  | call params hscope =>
    -- the body runs in environments that agree on its own names
    exact .within (Env.Agree.callEnv hscope hvs)
      (.last (fun _ _ hfg => hfg) (h.forms (List.Subset.refl _)) .nil)
  | list => exact .pure (.list hvs)
  | print =>
    exact run_print_rel (Value.SameOutline.map_text_eq (Value.Similar.outlines hvs))
      (fun _ => rfl) .nil
  | arithmetic compute =>
    exact run_arithmetic_rel (Value.SameOutline.numbers_eq (Value.Similar.outlines hvs))
      (fun _ _ => rfl) .number
  | close params hbody =>
    refine .bind .getEnv fun env₁ env₂ henv => .pure (.closure fun name hname => ?_)
    exact henv.lookup name (hbody hname)
  | declare hname =>
    exact run_declare_rel (fun _ _ henv => henv.binds _ hname)
      (fun _ _ henv => henv.assign _ (headD_rel .nil hvs)) rfl .nil

theorem Plan.Similar.run (h : evaluate.Respects) {p q : Plan} (hpq : p.Similar names q) :
    (p.run evaluate).Rel .same (Env.Agree names) Value.Similar (q.run evaluate) := by
  have hoperands := h.forms hpq.symbols
  rw [Plan.run, Plan.run, ← hpq.operands]
  exact .bind (.all (fun _ _ hfg => hfg) hoperands) fun _ _ hvs => hpq.conclusion.run h hvs

theorem eval_respects (fuel : Nat) : (eval fuel).Respects := by
  induction fuel with
  | zero =>
    intro form names _
    rw [eval_zero]
    exact .halt rfl
  | succ fuel ih =>
    intro form names hsub
    match form with
    | .number x _ => exact .pure (.number x)
    | .symbol name span =>
      rw [eval_symbol]
      refine .bind .getEnv fun env₁ env₂ henv => .ofExcept ?_
      exact Env.get_rel (henv.lookup name (hsub (by simp [Form.symbols]))) rfl
    | .list [] span => exact .halt rfl
    | .list (head :: args) span =>
      simp only [Form.symbols, Form.symbolsAll, List.append_subset] at hsub
      rw [eval_plan]
      refine .bind (ih head names hsub.1) fun f g hfg => .bind (V := Plan.Similar names) ?_
        fun p q hpq => hpq.run ih
      exact .ofExcept ((hfg.plan head.span span hsub.2).mono (fun _ _ => congrArg Halt.error)
        fun _ _ hpq => hpq)

/-- Evaluating the form cannot be told apart in the two environments: it ends in both or in none,
and where it ends, the same strings are printed, the error is the same or the values are similar
and shown by the same text, and the environments agree again. -/
structure Form.RunsAlike (form : Form) (env₁ env₂ : Env) : Prop where
  finishes : Finishes (eval · form) env₁ ↔ Finishes (eval · form) env₂
  printed : ∀ {o₁ o₂}, EndsWith (eval · form) env₁ o₁ → EndsWith (eval · form) env₂ o₂ →
    o₁.printed = o₂.printed
  result : ∀ {o₁ o₂}, EndsWith (eval · form) env₁ o₁ → EndsWith (eval · form) env₂ o₂ →
    (∃ e, o₁.result = .error (.error e) ∧ o₂.result = .error (.error e)) ∨
      ∃ v w, o₁.result = .ok v ∧ o₂.result = .ok w ∧ v.Similar w ∧ v.text = w.text
  env : ∀ {o₁ o₂}, EndsWith (eval · form) env₁ o₁ → EndsWith (eval · form) env₂ o₂ →
    Env.Agree form.symbols o₁.env o₂.env

/-- Two evaluations with the same fuel end both or not at all. -/
private theorem eval_finished_iff {form : Form} {env₁ env₂ : Env}
    (h : Env.Agree form.symbols env₁ env₂) (fuel : Nat) :
    (eval fuel form env₁).Finished ↔ (eval fuel form env₂).Finished :=
  (eval_respects fuel form _ (List.Subset.refl _) env₁ env₂ h).finished_iff Likeness.keepsFuel_same

/-- **Trimming.** What an environment binds to names that do not occur in a form has no part in
evaluating the form. In particular the scope of a closure may be replaced by any other that gives
the names in its body similar values. -/
theorem eval_runsAlike_of_agree :
    (∀ (form : Form) (env₁ env₂ : Env),
      Env.Agree form.symbols env₁ env₂ → form.RunsAlike env₁ env₂) ∧
      ∀ params body (scope₁ scope₂ : Env),
        (∀ name ∈ Form.symbolsAll body,
          Option.Rel Value.Similar (scope₁.lookup name) (scope₂.lookup name)) →
        ∀ (form : Form) (env : Env) name,
          form.RunsAlike (env.assign name (.closure params body scope₁))
            (env.assign name (.closure params body scope₂)) := by
  have hruns (form : Form) (env₁ env₂ : Env) (h : Env.Agree form.symbols env₁ env₂) :
      form.RunsAlike env₁ env₂ := by
    -- the outcomes are those of two evaluations with the same fuel
    have hrel : ∀ {o₁ o₂}, EndsWith (eval · form) env₁ o₁ → EndsWith (eval · form) env₂ o₂ →
        o₁.Rel .same (Env.Agree form.symbols) Value.Similar o₂ := by
      rintro _ o₂ ⟨hfin, fuel, rfl⟩ h₂
      have h₂' : EndsWith (eval · form) env₂ (eval fuel form env₂) :=
        ⟨(eval_finished_iff h fuel).mp hfin, fuel, rfl⟩
      rw [h₂.unique (fuelExtends_eval form) h₂']
      exact eval_respects fuel form _ (List.Subset.refl _) env₁ env₂ h
    refine ⟨exists_congr (eval_finished_iff h), fun h₁ h₂ => ?_, fun h₁ h₂ => ?_,
      fun h₁ h₂ => (hrel h₁ h₂).env⟩
    · have hevents := (hrel h₁ h₂).events
      rw [Likeness.same, List.forall₂_eq_eq_eq] at hevents
      rw [Outcome.printed, Outcome.printed, hevents]
    · have hresult := (hrel h₁ h₂).result
      rcases eval_result_cases h₁ with ⟨v, hv⟩ | ⟨e, he⟩
      · rw [hv] at hresult
        obtain ⟨w, hw, hvw⟩ := hresult.of_ok_left
        exact .inr ⟨v, w, hv, hw, hvw, hvw.text_eq⟩
      · rw [he] at hresult
        obtain ⟨halt, hhalt, heq⟩ := hresult.of_error_left
        exact .inl ⟨e, he, by rw [hhalt, show .error e = halt from heq]⟩
  refine ⟨hruns, fun params body scope₁ scope₂ hscope form env name => hruns form _ _ ?_⟩
  exact (Env.Agree.refl form.symbols env).assign name (.closure hscope)

/-- A closure that returns its argument may own the standard scope or an empty one. -/
theorem eval_runsAlike_of_agree_identity :
    let span : Span := .point .first
    let body : List Form := [.symbol "x" span]
    let call : Form := .list [.symbol "f" span, .number 1 span] span
    let env₁ := Env.standard.assign "f" (.closure ["x"] body Env.standard)
    let env₂ := Env.standard.assign "f" (.closure ["x"] body Scope.empty)
    Env.Agree call.symbols env₁ env₂ ∧ call.RunsAlike env₁ env₂ ∧
      (Form.symbol "f" span).RunsAlike env₁ env₂ := by
  intro span body call env₁ env₂
  have hscope : ∀ name ∈ Form.symbolsAll body,
      Option.Rel Value.Similar (Env.standard.lookup name) (Scope.empty.lookup name) := by
    intro name hname
    obtain rfl : name = "x" := by simpa [body, Form.symbolsAll, Form.symbols] using hname
    exact .none
  have hagree : Env.Agree call.symbols env₁ env₂ :=
    (Env.Agree.refl call.symbols Env.standard).assign "f" (.closure hscope)
  exact ⟨hagree, eval_runsAlike_of_agree.1 call env₁ env₂ hagree,
    eval_runsAlike_of_agree.2 ["x"] body Env.standard Scope.empty hscope _ Env.standard "f"⟩

end SnapLisp
