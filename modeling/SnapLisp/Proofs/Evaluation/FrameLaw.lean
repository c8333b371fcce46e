import Mathlib
import SnapLisp.Proofs.Evaluation.Visits

/-!
# What evaluation does to the environment

Evaluation may bind new names in the top frame, and that is all: it neither changes a binding nor
touches a frame further out, whether it ends with a value or with an error, however deep that
happened (`eval_grown`). Each new name stands in a `let` form that was evaluated on the way. So an
environment that was the standard one at first has one frame for ever, in which the operators keep
their names, whatever was run in it (`env_grown_of_run`).
-/

namespace SnapLisp

/-! ## Grown environments -/

/-- `env'` is `env`, except that the top frame may bind new names, each of them one of `gained`. -/
structure Env.Grown (gained : String → Prop) (env env' : Env) : Prop where
  depth : env'.depth = env.depth
  outer : env'.outer = env.outer
  kept : ∀ name value, env.top.lookup name = some value → env'.top.lookup name = some value
  gained : ∀ name, Frame.binds env'.top name = true → Frame.binds env.top name = true ∨ gained name

namespace Env.Grown

variable {gained gained' : String → Prop} {env env₁ env₂ : Env}

theorem refl (gained : String → Prop) (env : Env) : Grown gained env env :=
  ⟨rfl, rfl, fun _ _ h => h, fun _ h => .inl h⟩

theorem trans (h₁ : Grown gained env env₁) (h₂ : Grown gained env₁ env₂) :
    Grown gained env env₂ where
  depth := h₂.depth.trans h₁.depth
  outer := h₂.outer.trans h₁.outer
  kept name value h := h₂.kept name value (h₁.kept name value h)
  gained name h := by
    rcases h₂.gained name h with h | h
    · exact h₁.gained name h
    · exact .inr h

theorem mono (h : Grown gained env env₁) (himp : ∀ name, gained name → gained' name) :
    Grown gained' env env₁ :=
  ⟨h.depth, h.outer, h.kept, fun name hname => (h.gained name hname).imp id (himp name)⟩

/-- A declaration adds the one name. -/
theorem of_declare {name : String} {value : Value} (h : env.declare name value = .ok env₁)
    (hname : gained name) : Grown gained env env₁ := by
  obtain ⟨hfresh, rfl⟩ := Env.declare_eq_ok_iff.mp h
  refine ⟨rfl, rfl, fun other old hold => ?_, fun other hother => ?_⟩
  · have hne : other ≠ name := by
      rintro rfl
      simp [Frame.binds, hold] at hfresh
    rwa [Scope.assign, Frame.lookup_insert_of_ne _ _ hne]
  · rw [Scope.assign, Frame.binds_insert, Bool.or_eq_true, beq_iff_eq] at hother
    rcases hother with rfl | hother
    · exact .inr hname
    · exact .inl hother

end Env.Grown

/-- What is done second starts from what was done first. -/
theorem Action.bind_grown {α β : Type} {gained : String → Prop} {first : Action α}
    {next : α → Action β} {env : Env} (hfirst : Env.Grown gained env (first env).env)
    (hnext : ∀ a env' events, first env = ⟨.ok a, env', events⟩ →
      Env.Grown gained env' (next a env').env) :
    Env.Grown gained env ((first >>= next) env).env := by
  rcases h : first env with ⟨halt | a, env', events⟩ <;> rw [h] at hfirst
  · rwa [bind_of_error h]
  · rw [bind_of_ok h]
    exact hfirst.trans (hnext a env' events h)

/-- A computation that reads and writes no environment leaves it as it is. -/
theorem Action.ofExcept_grown {α : Type} (gained : String → Prop) (e : Except ScriptError α)
    (env : Env) : Env.Grown gained env ((Action.ofExcept e) env).env := by
  cases e with
  | error e => exact .refl _ _
  | ok a => exact .refl _ _

section Sequences

variable {gained : String → Prop} {fuel : Nat} {forms : List Form} {env : Env}

/-- If each form that is come to keeps the law, so does the whole list. -/
theorem all_grown (h : ∀ form env', Reached forms env form env' →
      Env.Grown gained env' (eval fuel form env').env) :
    Env.Grown gained env (Action.all (eval fuel) forms env).env := by
  induction forms generalizing env with
  | nil => exact .refl _ _
  | cons first rest ih =>
    rw [Action.all_cons]
    refine Action.bind_grown (h first env .here) fun value env₁ events hfirst => ?_
    have hrest := ih fun form env' hform => h form env' (.there ⟨fuel, events, hfirst⟩ hform)
    exact Action.bind_grown hrest fun _ _ _ _ => .refl _ _

theorem last_grown (value : Value) (h : ∀ form env', Reached forms env form env' →
      Env.Grown gained env' (eval fuel form env').env) :
    Env.Grown gained env (Action.last (eval fuel) value forms env).env := by
  induction forms generalizing env value with
  | nil => exact .refl _ _
  | cons first rest ih =>
    rw [Action.last_cons]
    refine Action.bind_grown (h first env .here) fun value env₁ events hfirst => ?_
    exact ih value fun form env' hform => h form env' (.there ⟨fuel, events, hfirst⟩ hform)

end Sequences

/-! ## Declarations -/

/-- Evaluating the form evaluates a `let` form that binds the name. -/
def Form.Declares (form : Form) (env : Env) (name : String) : Prop :=
  ∃ (head value : Form) (nameSpan span : Span) (env₁ env₂ env₃ : Env),
    form.Visits env (.list [head, .symbol name nameSpan, value] span) env₁ ∧
      Yields (eval · head) env₁ (.builtin .define) env₂ ∧
        Yields (eval · (.list [head, .symbol name nameSpan, value] span)) env₁ .nil env₃

/-- Evaluating forms from left to right evaluates a `let` form that binds the name. -/
def Form.DeclaresAny (forms : List Form) (env : Env) (name : String) : Prop :=
  ∃ form env', Reached forms env form env' ∧ form.Declares env' name

/-- Applying the operator evaluates an operand that binds the name, or the operator is `let` and
binds it itself. -/
def Builtin.Declares (op : Builtin) (span : Span) (args : List Form) (env : Env) (name : String) :
    Prop :=
  (∃ p, op.plan span args = .ok p ∧ Form.DeclaresAny p.operands env name) ∨
    op = .define ∧ (∃ nameSpan value, args = [.symbol name nameSpan, value]) ∧
      ∃ env', Yields (fun fuel => op.apply (eval fuel) span args) env .nil env'

theorem Form.Declares.of_visitsNext {form form' : Form} {env env' : Env} {name : String}
    (h : Form.VisitsNext (form, env) (form', env')) (hname : form'.Declares env' name) :
    form.Declares env name := by
  obtain ⟨head, value, nameSpan, span, env₁, env₂, env₃, hvisits, hrest⟩ := hname
  exact ⟨head, value, nameSpan, span, env₁, env₂, env₃, .head h hvisits, hrest⟩

/-! ## The law -/

section Law

variable {gained : String → Prop} {fuel : Nat}

/-- A plan keeps the law if its operands do, and the name that it declares counts. -/
theorem Plan.run_grown {p : Plan} {env : Env}
    (hoperands : ∀ form env', Reached p.operands env form env' →
      Env.Grown gained env' (eval fuel form env').env)
    (hdeclare : ∀ name env' events, p.conclusion = .declare name →
      p.run (eval fuel) env = ⟨.ok .nil, env', events⟩ → gained name) :
    Env.Grown gained env (p.run (eval fuel) env).env := by
  refine Action.bind_grown (all_grown hoperands) fun values env₁ events hvalues => ?_
  cases hc : p.conclusion with
  | call | list | print | close => exact .refl _ _
  | arithmetic compute =>
    exact Action.bind_grown (Action.ofExcept_grown _ _ _) fun _ _ _ _ => .refl _ _
  | declare name =>
    rw [Conclusion.run_declare]
    cases henv : env₁.declare name (values.headD .nil) with
    | error e => exact .refl _ _
    | ok env' =>
      refine .of_declare henv (hdeclare name env' (events ++ []) hc ?_)
      unfold Plan.run
      rw [Action.bind_of_ok hvalues, hc, Conclusion.run_declare, henv]

/-- Evaluating a form only binds names that are declared on the way. -/
theorem eval_grown (fuel : Nat) (form : Form) (env : Env) :
    Env.Grown (form.Declares env) env (eval fuel form env).env := by
  induction fuel generalizing form env with
  | zero => rw [eval_zero]; exact .refl _ _
  | succ fuel ih =>
    match form with
    | .number x _ => exact .refl _ _
    | .symbol name span => exact Action.ofExcept_grown _ _ _
    | .list [] span => exact .refl _ _
    | .list (head :: args) span =>
      have heval := eval_plan fuel head args span
      rw [heval]
      refine Action.bind_grown ((ih head env).mono fun _ => .of_visitsNext .head)
        fun f env₁ events hhead => ?_
      refine Action.bind_grown (Action.ofExcept_grown _ _ _) fun p env₁' events' hplan => ?_
      obtain ⟨hp, rfl, rfl⟩ := Action.ofExcept_eq_ok hplan
      have hf : Yields (eval · head) env f env₁' := ⟨fuel, events, hhead⟩
      refine Plan.run_grown (fun form env' hform => (ih form env').mono fun _ => .of_visitsNext
        (.operand hf hp hform)) fun name env₂ events₂ hname hrun => ?_
      -- the form itself is the `let` form
      obtain ⟨operands, conclusion⟩ := p
      cases hname
      cases Value.planned hp
      rename_i nameSpan value
      have hform : eval (fuel + 1) (.list [head, .symbol name nameSpan, value] span) env =
          ⟨.ok .nil, env₂, events ++ ([] ++ events₂)⟩ := by
        rw [heval, Action.bind_of_ok hhead, Action.bind_of_ok hplan, hrun]
      exact ⟨head, value, nameSpan, span, env, env₁', env₂, .refl _ _, hf, fuel + 1, _, hform⟩

/-- Evaluating the forms of a list only binds names that are declared on the way. -/
theorem eval_grown_of_reached {forms : List Form} {form : Form} {env env' : Env}
    (h : Reached forms env form env') :
    Env.Grown (Form.DeclaresAny forms env) env' (eval fuel form env').env :=
  (eval_grown fuel form env').mono fun _ hname => ⟨form, env', h, hname⟩

theorem interpret_grown (script : Script) (env : Env) :
    Env.Grown (Form.DeclaresAny script.forms env) env (interpret fuel script env).env := by
  rw [interpret, Action.reporting_env]
  exact last_grown .nil fun _ _ => eval_grown_of_reached

theorem Closure.apply_grown (params : List String) (body : List Form) (scope : Env)
    (args : List Form) (env : Env) :
    Env.Grown (Form.DeclaresAny args env) env
      (Closure.apply (eval fuel) params body scope args env).env := by
  unfold Closure.apply
  split
  · exact .refl _ _
  · exact Action.bind_grown (all_grown fun _ _ => eval_grown_of_reached) fun _ _ _ _ => .refl _ _

theorem Builtin.apply_grown (op : Builtin) (span : Span) (args : List Form) (env : Env) :
    Env.Grown (op.Declares span args env) env (op.apply (eval fuel) span args env).env := by
  have happly := Builtin.apply_eq_plan (eval fuel) op span args
  rw [happly]
  refine Action.bind_grown (Action.ofExcept_grown _ _ _) fun p env₁ events hplan => ?_
  obtain ⟨hp, rfl, rfl⟩ := Action.ofExcept_eq_ok hplan
  refine Plan.run_grown (fun form env' hform => ?_) fun name env₂ events₂ hname hrun => ?_
  · exact (eval_grown_of_reached hform).mono fun name hname => .inl ⟨p, hp, hname⟩
  · obtain ⟨operands, conclusion⟩ := p
    cases hname
    cases Builtin.planned hp
    rename_i nameSpan value
    have hform : Builtin.apply (eval fuel) .define span [.symbol name nameSpan, value] env₁ =
        ⟨.ok .nil, env₂, [] ++ events₂⟩ := by
      rw [happly, Action.bind_of_ok hplan, hrun]
    exact .inr ⟨rfl, ⟨nameSpan, value, rfl⟩, env₂, fuel, _, hform⟩

end Law

/-! ## Sessions -/

/-- The environment after running source texts one after the other, each with its own fuel,
however they end. -/
def Env.afterRuns (env : Env) (runs : List (Nat × String)) : Env :=
  runs.foldl (fun env (fuel, source) => (run fuel source env).env) env

theorem run_grown (fuel : Nat) (source : String) (env : Env) :
    Env.Grown (fun name => ∃ script, Script.ofString source = .ok script ∧
      Form.DeclaresAny script.forms env name) env (run fuel source env).env := by
  unfold run
  cases hscript : Script.ofString source with
  | error e => exact .refl _ _
  | ok script =>
    exact (interpret_grown script env).mono fun _ hname => ⟨script, rfl, hname⟩

theorem Env.afterRuns_grown (env : Env) (runs : List (Nat × String)) :
    Grown (fun _ => True) env (env.afterRuns runs) := by
  induction runs generalizing env with
  | nil => exact .refl _ _
  | cons first rest ih =>
    have hfirst : Grown (fun _ => True) env (run first.1 first.2 env).env :=
      (run_grown first.1 first.2 env).mono fun _ _ => trivial
    exact hfirst.trans (ih _)

theorem Env.afterRuns_append (env : Env) (front back : List (Nat × String)) :
    env.afterRuns (front ++ back) = (env.afterRuns front).afterRuns back :=
  List.foldl_append

/-- In a scope of one frame a name means what the top frame says. -/
theorem Scope.lookup_of_outer_nil {α : Type} {s : Scope α} (h : s.outer = []) (name : String) :
    s.lookup name = s.top.lookup name := by
  simp [lookup, frames, h, List.findSome?_cons]
  cases s.top.lookup name <;> rfl

/-- With no frame further out nothing can be hidden, so a name keeps its meaning. -/
theorem Env.Grown.lookup_eq_some {gained : String → Prop} {env env' : Env}
    (h : Grown gained env env') (houter : env.outer = []) {name : String} {value : Value}
    (hname : env.lookup name = some value) : env'.lookup name = some value := by
  rw [Scope.lookup_of_outer_nil houter] at hname
  rw [Scope.lookup_of_outer_nil (h.outer.trans houter)]
  exact h.kept name value hname

theorem Env.standard_lookup (op : Builtin) : standard.lookup op.name = some (.builtin op) := by
  cases op <;> rfl

/-- **Frame law.** Whatever is evaluated, run or applied, and however it ends, all frames but the
top one stay as they are, the top one keeps its bindings, and it only gains names that a `let` form
bound on the way. So a session that starts from the standard environment has one frame for ever,
the operators keep their names, and a bound name keeps its value. -/
theorem env_grown_of_run :
    (∀ fuel form env, Env.Grown (form.Declares env) env (eval fuel form env).env) ∧
      (∀ fuel script env, Env.Grown (Form.DeclaresAny script.forms env) env
        (interpret fuel script env).env) ∧
      (∀ fuel params body scope args env, Env.Grown (Form.DeclaresAny args env) env
        (Closure.apply (eval fuel) params body scope args env).env) ∧
      (∀ fuel op span args env, Env.Grown (op.Declares span args env) env
        (Builtin.apply (eval fuel) op span args env).env) ∧
      ∀ front back,
        let env := Env.standard.afterRuns front
        let later := Env.standard.afterRuns (front ++ back)
        later.depth = 1 ∧ (∀ op : Builtin, later.lookup op.name = some (.builtin op)) ∧
          ∀ name value, env.lookup name = some value → later.lookup name = some value := by
  refine ⟨eval_grown, fun _ => interpret_grown, fun _ => Closure.apply_grown,
    fun _ => Builtin.apply_grown, ?_⟩
  intro front back env later
  have henv : Env.Grown (fun _ => True) Env.standard env := Env.standard.afterRuns_grown front
  have hlater : Env.Grown (fun _ => True) env later := by
    have hsplit : later = env.afterRuns back := Env.afterRuns_append _ front back
    rw [hsplit]
    exact env.afterRuns_grown back
  refine ⟨(henv.trans hlater).depth, fun op => ?_, fun name value hname => ?_⟩
  · exact (henv.trans hlater).lookup_eq_some rfl (Env.standard_lookup op)
  · exact hlater.lookup_eq_some henv.outer hname

/-- A name that one run bound keeps its value when the next one tries to bind it again. -/
theorem env_grown_of_run_redeclared :
    let front := [(3, "(let x list)")]
    let back := [(3, "(let x print)")]
    (Env.standard.afterRuns front).lookup "x" = some (.builtin .list) ∧
      (Env.standard.afterRuns (front ++ back)).lookup "x" = some (.builtin .list) := by
  intro front back
  have hfront : (Env.standard.afterRuns front).lookup "x" = some (.builtin .list) := by cbv
  exact ⟨hfront, (env_grown_of_run.2.2.2.2 front back).2.2 "x" (.builtin .list) hfront⟩

end SnapLisp
