import SnapLisp.Number.Format
import SnapLisp.Source.Position

/-!
# Forms and scripts

A `Form` is a symbol, a number or a list of forms, with the span of its text. A `Script` is what a
whole text holds. Two forms are the same tree (`Form.same`) when they differ at most in their spans;
numbers are then compared as numbers. `Form.text` is the canonical text: one blank between the
elements of a list, one line a top-level form.
-/

namespace SnapLisp

/-- A piece of a script. -/
inductive Form where
  | symbol (name : String) (span : Span)
  | number (value : Float) (span : Span)
  | list (items : List Form) (span : Span)

/-- The top-level forms of a text, and the span of the text. -/
structure Script where
  forms : List Form
  span : Span

namespace Form

/-- The span of the form's text. -/
def span : Form → Span
  | .symbol _ span | .number _ span | .list _ span => span

mutual

/-- Whether two forms are the same tree. -/
def same : Form → Form → Bool
  | .symbol a _, .symbol b _ => a == b
  | .number a _, .number b _ => a == b
  | .list as _, .list bs _ => sameAll as bs
  | _, _ => false

/-- Whether two lists hold the same trees in the same order. -/
def sameAll : List Form → List Form → Bool
  | [], [] => true
  | a :: as, b :: bs => same a b && sameAll as bs
  | _, _ => false

end

mutual

/-- The canonical text of a form. -/
def text : Form → String
  | .symbol name _ => name
  | .number value _ => Number.Format.source.text value
  | .list items _ => "(" ++ " ".intercalate (texts items) ++ ")"

/-- The canonical texts of the forms of a list. -/
def texts : List Form → List String
  | [] => []
  | f :: fs => text f :: texts fs

end

end Form

namespace Script

/-- Whether two scripts have the same trees. -/
def same (a b : Script) : Bool := Form.sameAll a.forms b.forms

/-- The canonical text of a script, one top-level form a line. -/
def text (s : Script) : String := "\n".intercalate (Form.texts s.forms)

end Script

end SnapLisp
