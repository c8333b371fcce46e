import SnapLisp.Eval.Action

/-!
# Applications

How an operator or a closure is applied to argument forms. The forms arrive unevaluated, together
with the evaluator to be used on them.
-/

namespace SnapLisp

/-- What evaluates a form. -/
abbrev Evaluator := Form → Action Value

namespace Builtin

/-- The numbers in a list of values, if nothing else is in it; the first other value is to blame. -/
def numbers : List Value → Except ScriptError (List Float)
  | [] => .ok []
  | .number x :: rest => (numbers rest).map (x :: ·)
  | other :: _ => .error (.notNumber other.typeName)

/-- Evaluates all arguments, and then sees whether all are numbers. -/
def numericArgs (evaluate : Evaluator) (args : List Form) : Action (List Float) := do
  Action.ofExcept (numbers (← Action.all evaluate args))

/-- The error of an operator that wants an argument and has none. -/
def noArgument : ScriptError := .wrongArity "at least 1" 0

/-- The difference or the quotient of the first number and all others; a lone number meets the
neutral one. -/
def reduce (op : Float → Float → Float) (lone : Float → Float) :
    List Float → Except ScriptError Float
  | [] => .error noArgument
  | [x] => .ok (lone x)
  | x :: rest => .ok (rest.foldl op x)

/-- Declares a name in the top frame. Its value is evaluated first. -/
def applyDefine (evaluate : Evaluator) (span : Span) (args : List Form) : Action Value :=
  match args with
  | [.symbol name _, value] => do
    let value ← evaluate value
    Action.setEnv (← Action.ofExcept ((← Action.getEnv).declare name value))
    return .nil
  | [target, _] => Action.fail (.illFormedSpecial Builtin.define.name target.span)
  | _ => Action.fail (.illFormedSpecial Builtin.define.name span)

/-- The parameter that a form names, as an element of a parameter list. -/
def parameter : Form → Except ScriptError String
  | .symbol name _ => .ok name
  | other => .error (.illFormedParameter "expected symbol" other.span)

/-- The parameters that a list of forms names. -/
def parameterList : List Form → Except ScriptError (List String)
  | [] => .ok []
  | f :: rest => do return (← parameter f) :: (← parameterList rest)

/-- The parameters that the second element of a `fun` form names: one symbol, or a list of them. -/
def parameters : Form → Except ScriptError (List String)
  | .symbol name _ => .ok [name]
  | .list items _ => parameterList items
  | .number _ span => .error (.illFormedParameter "identifier or identifier list expected" span)

/-- Makes a closure that owns a copy of the environment at hand. Neither the parameters nor the body
are evaluated. -/
def applyLambda (span : Span) (args : List Form) : Action Value :=
  match args with
  | params :: first :: rest => do
    return .closure (← Action.ofExcept (parameters params)) (first :: rest) (← Action.getEnv)
  | _ => Action.fail (.illFormedSpecial Builtin.lambda.name span)

/-- Applies an operator to argument forms; `span` is that of the whole form. -/
def apply (evaluate : Evaluator) (op : Builtin) (span : Span) (args : List Form) : Action Value :=
  match op with
  | .define => applyDefine evaluate span args
  | .lambda => applyLambda span args
  | .list => do return .list (← Action.all evaluate args)
  | .print => do
    let values ← Action.all evaluate args
    Action.emit (.log (values.map Value.text))
    return .nil
  | .add => do return .number ((← numericArgs evaluate args).foldl (· + ·) 0)
  | .multiply => do return .number ((← numericArgs evaluate args).foldl (· * ·) 1)
  | .subtract => do
    return .number (← Action.ofExcept (reduce (· - ·) (- ·) (← numericArgs evaluate args)))
  | .divide => do
    return .number (← Action.ofExcept (reduce (· / ·) (1 / ·) (← numericArgs evaluate args)))

end Builtin

namespace Closure

/-- The environment of a call: the scope of the closure with one more frame, which binds each
parameter to its argument. -/
def callEnv (scope : Env) (params : List String) (args : List Value) : Env :=
  scope.push.assignAll (params.zip args)

/-- Leaves the frame of a call. -/
def leave : Action Unit := do
  match (← Action.getEnv).pop? with
  | some env => Action.setEnv env
  | none => Action.halt (.crash .outermostFrame)

/-- Runs the forms of a body in order; the last value counts. -/
def runBody (evaluate : Evaluator) (body : List Form) : Action Value := do
  let value ← Action.last evaluate .nil body
  leave
  return value

/-- Applies a closure to argument forms. Their number is checked before any of them is evaluated;
they are evaluated in the environment at hand, and the body in the closure's own. -/
def apply (evaluate : Evaluator) (params : List String) (body : List Form) (scope : Env)
    (args : List Form) : Action Value := do
  if params.length ≠ args.length then
    Action.fail (.wrongArity (toString params.length) args.length)
  else
    let values ← Action.all evaluate args
    Action.within (callEnv scope params values) (runBody evaluate body)

end Closure

end SnapLisp
