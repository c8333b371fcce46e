import SnapLisp.Builtin
import SnapLisp.Form.Basic
import SnapLisp.Scope
import SnapLisp.ScriptError

/-!
# Values

What forms evaluate to. A closure owns the scope that it was made in: the scope is part of the
value, so nothing that happens to the environment afterwards can reach it. Values compare with
`Value.equal`, under which no closure equals anything, and are shown by `Value.text`.
-/

namespace SnapLisp

/-- A value. -/
inductive Value where
  | number (x : Float)
  | nil
  | list (items : List Value)
  | builtin (op : Builtin)
  /-- A procedure with its parameters, the forms of its body, and the scope it was made in. -/
  | closure (params : List String) (body : List Form) (scope : Scope Value)

/-- What names mean where a form is evaluated. -/
abbrev Env := Scope Value

namespace Value

/-- The name of a value's type. -/
def typeName : Value → String
  | .number _ => "number"
  | .nil => "nil"
  | .list _ => "list"
  | .builtin _ => "builtin op"
  | .closure .. => "closure"

mutual

/-- Whether two values are equal: numbers as numbers, lists element by element, closures never. -/
def equal : Value → Value → Bool
  | .number a, .number b => a == b
  | .nil, .nil => true
  | .list as, .list bs => equalAll as bs
  | .builtin a, .builtin b => a == b
  | _, _ => false

/-- Whether two lists hold equal values in the same order. -/
def equalAll : List Value → List Value → Bool
  | [], [] => true
  | a :: as, b :: bs => equal a b && equalAll as bs
  | _, _ => false

end

mutual

/-- The text that shows a value. -/
def text : Value → String
  | .number x => Number.Format.display.text x
  | .nil => "nil"
  | .list items => "(" ++ " ".intercalate (texts items) ++ ")"
  | .builtin op => "<builtin op: " ++ op.name ++ ">"
  | .closure params _ _ => "(fun (" ++ " ".intercalate params ++ ") ...)"

/-- The texts of the values of a list. -/
def texts : List Value → List String
  | [] => []
  | v :: vs => text v :: texts vs

end

end Value

namespace Env

/-- The environment of one frame that binds every operator to its name. -/
def standard : Env := Scope.empty.assignAll (Builtin.all.map fun op => (op.name, .builtin op))

/-- The value of a name that stands at the given span. -/
def get (env : Env) (name : String) (span : Span) : Except ScriptError Value :=
  match env.lookup name with
  | some value => .ok value
  | none => .error (.unbound name span)

/-- The environment with a name declared in its top frame. -/
def declare (env : Env) (name : String) (value : Value) : Except ScriptError Env :=
  match env.declare? name value with
  | some env => .ok env
  | none => .error (.redeclared name)

end Env

end SnapLisp
