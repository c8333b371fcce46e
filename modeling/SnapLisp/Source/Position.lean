/-!
# Places in a source text

A `Position` counts the bytes before a place and names its line and column; a `Span` is the
half-open range between two positions. A position moves over bytes one at a time, so moving over
two stretches of text is moving over both together (`Position.advance_append`), and the number of
bytes passed is the change of the offset (`Position.offset_advance`).
-/

namespace SnapLisp

/-- A place in a source text. Lines and columns count from 1, and a column is one byte wide. -/
structure Position where
  /-- The number of bytes before this place. -/
  offset : Nat
  line : Nat
  column : Nat
  deriving DecidableEq, Repr

/-- The half-open range of a source text from `start` up to `stop`. -/
structure Span where
  start : Position
  stop : Position
  deriving DecidableEq, Repr

namespace Position

/-- The place before the first byte. -/
def first : Position := ⟨0, 1, 1⟩

/-- The byte that ends a line. -/
def lineFeed : UInt8 := 10

/-- The place after one more byte: a line feed opens a line, any other byte takes a column. -/
def step (p : Position) (byte : UInt8) : Position :=
  if byte = lineFeed then ⟨p.offset + 1, p.line + 1, 1⟩ else ⟨p.offset + 1, p.line, p.column + 1⟩

/-- The place after the bytes of a stretch of text. -/
def advance (p : Position) (bytes : List UInt8) : Position := bytes.foldl step p

@[simp] theorem advance_nil (p : Position) : p.advance [] = p := rfl

@[simp] theorem advance_cons (p : Position) (byte : UInt8) (rest : List UInt8) :
    p.advance (byte :: rest) = (p.step byte).advance rest := rfl

theorem advance_append (p : Position) (front back : List UInt8) :
    p.advance (front ++ back) = (p.advance front).advance back := List.foldl_append

@[simp] theorem offset_step (p : Position) (byte : UInt8) :
    (p.step byte).offset = p.offset + 1 := by
  unfold step; split <;> rfl

theorem offset_advance (p : Position) (bytes : List UInt8) :
    (p.advance bytes).offset = p.offset + bytes.length := by
  induction bytes generalizing p with
  | nil => rfl
  | cons byte rest ih => simp [ih]; omega

/-- Line and column, as an error message names a place. -/
def text (p : Position) : String := toString p.line ++ ":" ++ toString p.column

end Position

namespace Span

/-- The empty range at a place. -/
def point (p : Position) : Span := ⟨p, p⟩

/-- Where the range starts and where it stops, `line:column-line:column`. -/
def text (s : Span) : String := s.start.text ++ "-" ++ s.stop.text

/-- The range in one colon-separated entry, `line:column:line:column`. -/
def compact (s : Span) : String := s.start.text ++ ":" ++ s.stop.text

end Span

end SnapLisp
