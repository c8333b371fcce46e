import SnapLisp.Proofs.Token.Lexemes

/-!
# The places of tokens

The span of a token is the range of its text: it starts behind the bytes in front of the token, and
it ends behind those of the token itself (`TokenStream.liesIn_of_scan`). So the bytes in the range
of a symbol are its name.
-/

namespace SnapLisp

/-- The bytes of a text between the two ends of the range. -/
def Span.bytesOf (span : Span) (text : List UInt8) : List UInt8 :=
  (text.take span.stop.offset).drop span.start.offset

namespace Span

variable {span : Span} {text : List UInt8}

/-- The bytes of a range are in front of what is left behind it. -/
theorem drop_eq (hle : span.start.offset ≤ span.stop.offset)
    (hstop : span.stop.offset ≤ text.length) :
    text.drop span.start.offset = span.bytesOf text ++ text.drop span.stop.offset := by
  conv => lhs; rw [← List.take_append_drop span.stop.offset text]
  rw [List.drop_append_of_le_length (by rw [List.length_take]; omega), bytesOf]

theorem length_bytesOf (hstop : span.stop.offset ≤ text.length) :
    (span.bytesOf text).length = span.stop.offset - span.start.offset := by
  rw [bytesOf, List.length_drop, List.length_take, Nat.min_eq_left hstop]

theorem getElem?_of_bytesOf {body : List UInt8} {b : UInt8} (h : span.bytesOf text = b :: body) :
    text[span.start.offset]? = some b := by
  have hhead : (span.bytesOf text)[0]? = some b := by
    rw [h]
    rfl
  rw [bytesOf, List.getElem?_drop, Nat.add_zero, List.getElem?_take] at hhead
  split at hhead
  · exact hhead
  · cases hhead

theorem of_bytesOf_singleton {b : UInt8} (h : span.bytesOf text = [b])
    (hstop : span.stop.offset ≤ text.length) :
    span.stop.offset = span.start.offset + 1 ∧ text[span.start.offset]? = some b := by
  have hlength := length_bytesOf hstop
  rw [h, List.length_singleton] at hlength
  exact ⟨by omega, getElem?_of_bytesOf h⟩

/-- The range is that of some bytes of a text that starts in the given place, with `part` in it. -/
def Covers (place : Position) (text part : List UInt8) (span : Span) : Prop :=
  ∃ front back, text = front ++ part ++ back ∧
    span = ⟨place.advance front, place.advance (front ++ part)⟩

theorem Covers.bytesOf_eq {part : List UInt8} (h : Covers .first text part span) :
    span.bytesOf text = part := by
  obtain ⟨front, back, rfl, rfl⟩ := h
  rw [bytesOf, Position.offset_advance_first, Position.offset_advance_first, List.take_left,
    List.drop_left]

end Span

/-- The span of the token is a range of the text, and that of a symbol is the range of its name. -/
def Token.LiesIn (place : Position) (text : List UInt8) (t : Token) : Prop :=
  ∃ part, t.span.Covers place text part ∧ ∀ name, t.kind = .symbol name → part = Bytes.utf8 name

/-- **Places.** Every token lies in the text that it is read from. -/
theorem TokenStream.liesIn_of_scan {place : Position} {text : List UInt8} {s : TokenStream}
    (h : scan place text = .ok s) : ∀ t ∈ s.tokens, t.LiesIn place text := by
  intro t ht
  obtain ⟨before, lexeme, rest, rfl, hspan, hmunches, -⟩ := (lexed_of_scan h).exists_of_mem ht
  refine ⟨lexeme, ⟨before, rest, by rw [List.append_assoc], hspan⟩, fun name hname => ?_⟩
  rw [hname] at hmunches
  exact hmunches.1

end SnapLisp
