import Mathlib.Logic.Relation
import SnapLisp.Proofs.Evaluation.Fuel

/-!
# What is evaluated on the way

Evaluating a form evaluates other forms, each in the environment of its moment: the head and the
operands of an application in the one at hand, the body of a closure in the environment of the call.
`Form.Visits` relates a form and an environment to all that is evaluated on the way, whether or not
the evaluation ever ends.
-/

namespace SnapLisp

/-- Evaluating forms from left to right comes to `form` in `env'`: all forms before it had
values. -/
inductive Reached : List Form → Env → Form → Env → Prop where
  | here {form : Form} {rest : List Form} {env : Env} : Reached (form :: rest) env form env
  | there {first form : Form} {rest : List Form} {env env₁ env' : Env} {value : Value} :
      Yields (eval · first) env value env₁ → Reached rest env₁ form env' →
        Reached (first :: rest) env form env'

/-- Evaluating one form evaluates another one directly. -/
inductive Form.VisitsNext : Form × Env → Form × Env → Prop where
  | head {head : Form} {args : List Form} {span : Span} {env : Env} :
      VisitsNext (.list (head :: args) span, env) (head, env)
  | operand {head form : Form} {args : List Form} {span : Span} {env env₁ env' : Env} {f : Value}
      {p : Plan} :
      Yields (eval · head) env f env₁ → f.plan head.span span args = .ok p →
        Reached p.operands env₁ form env' →
          VisitsNext (.list (head :: args) span, env) (form, env')
  | body {head form : Form} {args body : List Form} {span : Span} {env env₁ env₂ scope env' : Env}
      {params : List String} {values : List Value} :
      Yields (eval · head) env (.closure params body scope) env₁ → params.length = args.length →
        Yields (fun fuel => Action.all (eval fuel) args) env₁ values env₂ →
          Reached body (Closure.callEnv scope params values) form env' →
            VisitsNext (.list (head :: args) span, env) (form, env')

/-- Evaluating `form` in `env` evaluates `form'` in `env'`, at whatever depth. -/
def Form.Visits (form : Form) (env : Env) (form' : Form) (env' : Env) : Prop :=
  Relation.ReflTransGen Form.VisitsNext (form, env) (form', env')

theorem Form.Visits.refl (form : Form) (env : Env) : form.Visits env form env :=
  Relation.ReflTransGen.refl

theorem Form.Visits.head {form form₁ form' : Form} {env env₁ env' : Env}
    (h : Form.VisitsNext (form, env) (form₁, env₁)) (h' : form₁.Visits env₁ form' env') :
    form.Visits env form' env' := Relation.ReflTransGen.head h h'

/-! ## Evaluators that agree on what is visited -/

/-- Two sequences do the same if they start alike and go on alike. -/
theorem Action.bind_congr_at {α β : Type} {first first' : Action α} {next next' : α → Action β}
    {env : Env} (hfirst : first env = first' env)
    (hnext : ∀ a env' events, first' env = ⟨.ok a, env', events⟩ → next a env' = next' a env') :
    (first >>= next) env = (first' >>= next') env := by
  rcases h : first' env with ⟨halt | a, env', events⟩
  · rw [bind_of_error h, bind_of_error (hfirst.trans h)]
  · rw [bind_of_ok h, bind_of_ok (hfirst.trans h), hnext a env' events h]

section Sequences

variable {evaluate : Evaluator} {fuel : Nat} {forms : List Form} {env : Env}

theorem all_congr_of_reached
    (h : ∀ form env', Reached forms env form env' → evaluate form env' = eval fuel form env') :
    Action.all evaluate forms env = Action.all (eval fuel) forms env := by
  induction forms generalizing env with
  | nil => rfl
  | cons first rest ih =>
    rw [Action.all_cons, Action.all_cons]
    refine Action.bind_congr_at (h first env .here) fun value env₁ events hfirst => ?_
    have hrest := ih fun form env' hform => h form env' (.there ⟨fuel, events, hfirst⟩ hform)
    exact Action.bind_congr_at hrest fun _ _ _ _ => rfl

theorem last_congr_of_reached (value : Value)
    (h : ∀ form env', Reached forms env form env' → evaluate form env' = eval fuel form env') :
    Action.last evaluate value forms env = Action.last (eval fuel) value forms env := by
  induction forms generalizing env value with
  | nil => rfl
  | cons first rest ih =>
    rw [Action.last_cons, Action.last_cons]
    refine Action.bind_congr_at (h first env .here) fun value env₁ events hfirst => ?_
    exact ih value fun form env' hform => h form env' (.there ⟨fuel, events, hfirst⟩ hform)

end Sequences

end SnapLisp
