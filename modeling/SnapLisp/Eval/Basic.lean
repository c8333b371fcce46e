import SnapLisp.Eval.Apply
import SnapLisp.Form.Parser

/-!
# Evaluation

`eval fuel` evaluates a form. A script may run forever, so evaluations nest at most `fuel` deep;
one that needs more ends with `Halt.outOfFuel`, which is no answer of the language. `interpret`
runs the forms of a script, and `run` those of a source text; both tell the outside of the error
that they end with.
-/

namespace SnapLisp

/-- The value of a form, with evaluations nested at most `fuel` deep. -/
def eval : (fuel : Nat) → Evaluator
  | 0, _ => Action.halt .outOfFuel
  | _ + 1, .number x _ => pure (.number x)
  | _ + 1, .symbol name span => do Action.ofExcept ((← Action.getEnv).get name span)
  | _ + 1, .list [] span => Action.fail (.illFormed span)
  | fuel + 1, .list (head :: args) span => do
    match ← eval fuel head with
    | .closure params body scope => Closure.apply (eval fuel) params body scope args
    | .builtin op => op.apply (eval fuel) span args
    | .number _ | .nil | .list _ => Action.fail (.notProcedure head.span)

@[simp] theorem eval_zero (form : Form) : eval 0 form = Action.halt .outOfFuel := by
  cases form <;> rfl

@[simp] theorem eval_number (fuel : Nat) (x : Float) (span : Span) :
    eval (fuel + 1) (.number x span) = pure (.number x) := rfl

theorem eval_symbol (fuel : Nat) (name : String) (span : Span) :
    eval (fuel + 1) (.symbol name span) =
      Action.getEnv >>= fun env => Action.ofExcept (env.get name span) := rfl

@[simp] theorem eval_empty (fuel : Nat) (span : Span) :
    eval (fuel + 1) (.list [] span) = Action.fail (.illFormed span) := rfl

/-- The head decides how the rest of a form is used. -/
theorem eval_application (fuel : Nat) (head : Form) (args : List Form) (span : Span) :
    eval (fuel + 1) (.list (head :: args) span) = eval fuel head >>= fun
      | .closure params body scope => Closure.apply (eval fuel) params body scope args
      | .builtin op => op.apply (eval fuel) span args
      | .number _ | .nil | .list _ => Action.fail (.notProcedure head.span) := rfl

/-- Runs the forms of a script in order. The last value counts, and the first error ends the run. -/
def interpret (fuel : Nat) (script : Script) : Action Value :=
  Action.reporting (Action.last (eval fuel) .nil script.forms)

/-- Runs a source text. A text that is no script is reported like any other error. -/
def run (fuel : Nat) (source : String) : Action Value :=
  match Script.ofString source with
  | .ok script => interpret fuel script
  | .error e => Action.reporting (Action.fail e)

end SnapLisp
