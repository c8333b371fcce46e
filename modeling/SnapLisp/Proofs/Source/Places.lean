import Mathlib.Data.List.Induction
import SnapLisp.Source.Position

/-!
# Places by offset, and places from an origin

`Position.inText` finds the line and the column of an offset by looking at the text in front of it:
it is where moving over these bytes leads (`Position.advance_first`).

A text that stands in another place has all its places moved (`Position.Shift`). One such shift is
`Position.relativeTo`, which counts the places of a text from one of them: the bytes behind the
origin take the places that they have in a text of their own (`Position.shift_relativeTo`,
`Position.relativeTo_self`).
-/

namespace SnapLisp

namespace Position

/-! ## Places by offset -/

/-- The place of an offset in a text. The line is counted by the line feeds in front of it, and the
column from behind the last of them. -/
def inText (text : List UInt8) (offset : Nat) : Position :=
  ⟨offset, 1 + (text.take offset).count lineFeed,
    1 + ((text.take offset).reverse.takeWhile (· ≠ lineFeed)).length⟩

theorem step_lineFeed (p : Position) : p.step lineFeed = ⟨p.offset + 1, p.line + 1, 1⟩ := rfl

theorem step_of_ne (p : Position) {b : UInt8} (hb : b ≠ lineFeed) :
    p.step b = ⟨p.offset + 1, p.line, p.column + 1⟩ := if_neg hb

theorem inText_length (text : List UInt8) : inText text text.length =
    ⟨text.length, 1 + text.count lineFeed,
      1 + (text.reverse.takeWhile (· ≠ lineFeed)).length⟩ := by
  rw [inText, List.take_length]

/-- Moving over a whole text leads to where its length is in it. -/
theorem advance_first (text : List UInt8) : first.advance text = inText text text.length := by
  -- the last byte decides the step, so the induction is from the back
  induction text using List.reverseRecOn with
  | nil => rfl
  | append_singleton front b ih =>
    rw [advance_append, ih, advance_cons, advance_nil, inText_length, inText_length]
    by_cases hb : b = lineFeed
    · subst hb
      simp [step_lineFeed]
      omega
    · simp [step_of_ne _ hb, hb]
      omega

theorem inText_append (front back : List UInt8) :
    inText (front ++ back) front.length = first.advance front := by
  rw [advance_first, inText_length, inText, List.take_left]

theorem advance_take {text : List UInt8} {offset : Nat} (h : offset ≤ text.length) :
    first.advance (text.take offset) = inText text offset := by
  have hplace := inText_append (text.take offset) (text.drop offset)
  rwa [List.take_append_drop, List.length_take, Nat.min_eq_left h, eq_comm] at hplace

@[simp] theorem offset_advance_first (text : List UInt8) :
    (first.advance text).offset = text.length := by
  rw [advance_first, inText]

/-! ## Moving all places of a text -/

/-- Moving on commutes with the map, from the places of a kind on. -/
structure Shift (From : Position → Prop) (shift : Position → Position) : Prop where
  step {p : Position} (b : UInt8) : From p → From (p.step b)
  shift_step {p : Position} (b : UInt8) : From p → shift (p.step b) = (shift p).step b

namespace Shift

variable {From : Position → Prop} {shift : Position → Position} {p : Position}

theorem advance (h : Shift From shift) (hp : From p) (bytes : List UInt8) :
    From (p.advance bytes) := by
  induction bytes generalizing p with
  | nil => exact hp
  | cons b rest ih => exact ih (h.step b hp)

theorem shift_advance (h : Shift From shift) (hp : From p) (bytes : List UInt8) :
    shift (p.advance bytes) = (shift p).advance bytes := by
  induction bytes generalizing p with
  | nil => rfl
  | cons b rest ih => rw [advance_cons, ih (h.step b hp), h.shift_step b hp, advance_cons]

end Shift

/-! ## Places from an origin -/

/-- The place as it is counted from an origin in front of it. Only the first line loses columns. -/
def relativeTo (p origin : Position) : Position :=
  ⟨p.offset - origin.offset, p.line - (origin.line - 1),
    if p.line = origin.line then p.column - (origin.column - 1) else p.column⟩

/-- The place is reached by moving on from the origin. -/
structure Follows (origin p : Position) : Prop where
  line_pos : 1 ≤ origin.line
  column_pos : 1 ≤ origin.column
  offset_le : origin.offset ≤ p.offset
  line_le : origin.line ≤ p.line
  column_le : p.line = origin.line → origin.column ≤ p.column

/-- Counting from an origin is a shift of the places behind it. -/
theorem shift_relativeTo (origin : Position) : Shift (Follows origin) (·.relativeTo origin) where
  step {p} b h := by
    obtain ⟨hline, hcolumn, hoffset, hle, hfirst⟩ := h
    by_cases hb : b = lineFeed
    · subst hb
      rw [step_lineFeed]
      exact ⟨hline, hcolumn, by simp; omega, by simp; omega, by simp; omega⟩
    · rw [step_of_ne p hb]
      exact ⟨hline, hcolumn, by simp; omega, hle, fun heq => Nat.le_succ_of_le (hfirst heq)⟩
  shift_step {p} b h := by
    obtain ⟨hline, hcolumn, hoffset, hle, hfirst⟩ := h
    by_cases hb : b = lineFeed
    · subst hb
      have hbehind : p.line + 1 ≠ origin.line := by omega
      simp [step_lineFeed, relativeTo, hbehind]
      omega
    · simp only [step_of_ne _ hb, relativeTo, mk.injEq, true_and]
      split
      case isTrue heq =>
        have := hfirst heq
        omega
      case isFalse => omega

/-- A place of a text follows itself. -/
theorem follows_self_advance_first (front : List UInt8) :
    Follows (first.advance front) (first.advance front) := by
  rw [advance_first]
  exact ⟨Nat.le_add_right _ _, Nat.le_add_right _ _, Nat.le_refl _, Nat.le_refl _,
    fun _ => Nat.le_refl _⟩

theorem relativeTo_self {p : Position} (h : Follows p p) : p.relativeTo p = first := by
  have hline := h.line_pos
  have hcolumn := h.column_pos
  simp only [relativeTo, if_true, first, mk.injEq]
  omega

end Position

/-- A range with both ends moved. -/
def Span.shifted (shift : Position → Position) (s : Span) : Span := ⟨shift s.start, shift s.stop⟩

/-- A range as it is counted from an origin. -/
def Span.relativeTo (s : Span) (origin : Position) : Span := s.shifted (·.relativeTo origin)

end SnapLisp
