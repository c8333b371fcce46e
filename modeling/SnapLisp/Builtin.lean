/-!
# The built-in operators

Eight operators are bound from the start, each under its own name. No two have the same name, so
`Builtin.ofName?` is inverse to `Builtin.name` (`ofName?_eq_some_iff`).
-/

namespace SnapLisp

/-- A built-in operator. -/
inductive Builtin where
  | print
  /-- Declares a name. -/
  | define
  /-- Makes a closure. -/
  | lambda
  | list
  | add
  | subtract
  | multiply
  | divide
  deriving DecidableEq, Repr

namespace Builtin

/-- All operators, in the order in which they are declared. -/
def all : List Builtin := [.print, .define, .lambda, .list, .add, .subtract, .multiply, .divide]

/-- The name that an operator is bound under. -/
def name : Builtin → String
  | .print => "print"
  | .define => "let"
  | .lambda => "fun"
  | .list => "list"
  | .add => "+"
  | .subtract => "-"
  | .multiply => "*"
  | .divide => "/"

/-- The operator of a name. -/
def ofName? (name : String) : Option Builtin := all.find? (·.name == name)

theorem ofName?_name (op : Builtin) : ofName? op.name = some op := by cases op <;> rfl

theorem ofName?_eq_some_iff {name : String} {op : Builtin} :
    ofName? name = some op ↔ op.name = name := by
  refine ⟨fun h => ?_, fun h => h ▸ ofName?_name op⟩
  simpa using List.find?_some h

end Builtin

end SnapLisp
