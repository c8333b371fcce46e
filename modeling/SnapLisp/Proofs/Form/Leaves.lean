import SnapLisp.Form.Basic

/-!
# Symbols and numbers of a form

A form is a tree whose leaves are symbols and numbers. `Form.symbols` and `Form.numbers` list them
in the order of the text, at whatever depth they stand. `Form.induction` is induction over trees,
with one hypothesis for each element of a list.
-/

namespace SnapLisp.Form

/-- Induction over forms: a property of all elements of a list is one of the list. -/
theorem induction {motive : Form → Prop} (symbol : ∀ name span, motive (.symbol name span))
    (number : ∀ value span, motive (.number value span))
    (list : ∀ items span, (∀ item ∈ items, motive item) → motive (.list items span)) :
    ∀ form, motive form
  | .symbol name span => symbol name span
  | .number value span => number value span
  | .list items span => list items span fun item _ => induction symbol number list item

mutual

/-- The names of all symbols in a form. -/
def symbols : Form → List String
  | .symbol name _ => [name]
  | .number .. => []
  | .list items _ => symbolsAll items

/-- The names of all symbols in the forms of a list. -/
def symbolsAll : List Form → List String
  | [] => []
  | f :: fs => symbols f ++ symbolsAll fs

end

mutual

/-- The values of all numbers in a form. -/
def numbers : Form → List Float
  | .symbol .. => []
  | .number value _ => [value]
  | .list items _ => numbersAll items

/-- The values of all numbers in the forms of a list. -/
def numbersAll : List Form → List Float
  | [] => []
  | f :: fs => numbers f ++ numbersAll fs

end

theorem mem_symbolsAll {name : String} {forms : List Form} :
    name ∈ symbolsAll forms ↔ ∃ f ∈ forms, name ∈ f.symbols := by
  induction forms with
  | nil => simp [symbolsAll]
  | cons f fs ih => simp [symbolsAll, ih]

theorem mem_numbersAll {value : Float} {forms : List Form} :
    value ∈ numbersAll forms ↔ ∃ f ∈ forms, value ∈ f.numbers := by
  induction forms with
  | nil => simp [numbersAll]
  | cons f fs ih => simp [numbersAll, ih]

end SnapLisp.Form
