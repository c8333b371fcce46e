import SnapLisp.Proofs.Form.Places
import SnapLisp.Proofs.Token.Faults

/-!
# All places of a text

Whatever is made of a text, or reported about it, stands in places of this text: `Position.Exact`
says what line and column an offset has, by the line feeds in front of it. Tokens and forms, also
those inside of others, start and end in such places, and so does every error name one
(`Script.places_exact`). The text may be any bytes.

A place is exact if it is reached from the start of the text by moving over its first bytes
(`Position.exact_advance`). That is how the lexer comes to a place, and all other places are taken
from its tokens.
-/

namespace SnapLisp

/-- The place is one of the text, the offset of its end included. Its line is one more than the
line feeds in front of it, and its column one more than the bytes behind the last of these, or
behind the start of the text. -/
structure Position.Exact (text : List UInt8) (p : Position) : Prop where
  offset_le : p.offset ≤ text.length
  line_eq : p.line = 1 + (text.take p.offset).count lineFeed
  column_eq : p.column = 1 + ((text.take p.offset).reverse.takeWhile (· ≠ lineFeed)).length

/-- Both ends of the range are places of the text. -/
def Span.Exact (text : List UInt8) (s : Span) : Prop := s.start.Exact text ∧ s.stop.Exact text

/-- The text could not be read, and the place that is named for it is one of the text. -/
def ScriptError.Exact (text : List UInt8) (e : ScriptError) : Prop :=
  ∃ expected place, e = .malformed expected place ∧ place.Exact text

variable {text : List UInt8}

/-! ## Reaching a place -/

/-- Moving over the first bytes of a text leads to a place of it. -/
theorem Position.exact_advance {front : List UInt8} (h : front <+: text) :
    (first.advance front).Exact text := by
  obtain ⟨back, rfl⟩ := h
  rw [← inText_append front back]
  exact ⟨by rw [List.length_append]; exact Nat.le_add_right _ _, rfl, rfl⟩

theorem Position.exact_first (text : List UInt8) : first.Exact text :=
  exact_advance (List.nil_prefix (l := text))

theorem Span.Covers.exact {part : List UInt8} {s : Span} (h : s.Covers .first text part) :
    s.Exact text := by
  obtain ⟨front, back, rfl, rfl⟩ := h
  rw [List.append_assoc]
  refine ⟨Position.exact_advance (List.prefix_append _ _), Position.exact_advance ?_⟩
  rw [← List.append_assoc]
  exact List.prefix_append _ _

/-! ## Tokens -/

namespace TokenStream

theorem exact_of_mem {s : TokenStream} (h : ofBytes text = .ok s) :
    ∀ t ∈ s.toList, t.span.Exact text := by
  obtain ⟨-, heof⟩ := scan_eq_ok_iff.mp h
  have hend : (Position.first.advance text).Exact text := Position.exact_advance List.prefix_rfl
  refine List.forall_mem_append.mpr ⟨fun t ht => ?_, List.forall_mem_singleton.mpr ?_⟩
  · obtain ⟨part, hcovers, -⟩ := liesIn_of_scan h t ht
    exact hcovers.exact
  · rw [heof]
    exact ⟨hend, hend⟩

theorem exact_of_error {e : ScriptError} (h : ofBytes text = .error e) : e.Exact text := by
  cases judged .first text with
  | faultless hs => cases hs.symm.trans h
  | @faulty front part back expected htext _ _ _ herror =>
    have hplace := herror back
    rw [← htext] at hplace
    obtain rfl := Except.error.inj (h.symm.trans hplace)
    exact ⟨expected, _, rfl, Position.exact_advance ⟨part ++ back, htext.symm⟩⟩

end TokenStream

/-! ## Forms -/

namespace Script

/-- The place where reading fails is the start of a token. -/
theorem exists_token_of_error {stream : TokenStream} {e : ScriptError}
    (h : ofTokens stream = .error e) :
    ∃ expected, ∃ t ∈ stream.toList, e = .malformed expected t.span.start := by
  obtain ⟨front, t, rest, hsplit, -, hr⟩ := holds_nil.reaches passable_nil stream.eof stream.tokens
  have ht : t ∈ stream.toList := by
    rw [TokenStream.toList, hsplit]
    exact List.mem_append_right _ (.head _)
  rw [show read [] [] stream.eof stream.tokens = .error e from h] at hr
  cases hr with
  | surplus | unclosed => exact ⟨_, _, ht, rfl⟩

theorem exact_of_error {e : ScriptError} (h : ofBytes text = .error e) : e.Exact text := by
  cases hstream : TokenStream.ofBytes text with
  | error e' =>
    obtain rfl := Except.error.inj ((TokenStream.script_eq_error hstream).symm.trans h)
    exact TokenStream.exact_of_error hstream
  | ok stream =>
    rw [ofBytes, hstream] at h
    obtain ⟨expected, t, ht, rfl⟩ := exists_token_of_error h
    exact ⟨expected, _, rfl, (TokenStream.exact_of_mem hstream t ht).1⟩

/-- A form has its ends from its first and its last token. -/
theorem HasAt.exact {s : Script} {form : Form} {level : Nat} (hs : ofBytes text = .ok s)
    (h : s.HasAt form level) : form.span.Exact text := by
  obtain ⟨stream, hstream, hforms, -⟩ := exists_tokens_of_ofBytes hs
  obtain ⟨own, hown, hpart⟩ := h.exists_tokens hforms
  obtain ⟨first, last, hfirst, hlast, hspan⟩ := hown.exists_ends
  have hexact : ∀ t ∈ own, t.span.Exact text := fun t ht =>
    TokenStream.exact_of_mem hstream t (List.mem_append_left _ (hpart.subset ht))
  rw [hspan]
  exact ⟨(hexact first (List.mem_of_head? hfirst)).1, (hexact last (List.mem_of_getLast? hlast)).2⟩

theorem exact_span {s : Script} (hs : ofBytes text = .ok s) : s.span.Exact text := by
  obtain ⟨stream, hstream, -, hspan⟩ := exists_tokens_of_ofBytes hs
  have heof := TokenStream.exact_of_mem hstream ⟨.eof, stream.eof⟩ (by simp [TokenStream.toList])
  rw [hspan]
  exact ⟨Position.exact_first text, heof.2⟩

/-- **Places.** All tokens of a text and all forms of it, at whatever depth, start and end in places
of the text, and so does the script. If the text cannot be read, then the error, of the lexer or of
the parser, names a place of the text. -/
theorem places_exact (text : List UInt8) :
    (∀ s, TokenStream.ofBytes text = .ok s → ∀ t ∈ s.toList, t.span.Exact text) ∧
      (∀ e, TokenStream.ofBytes text = .error e → e.Exact text) ∧
      (∀ s, ofBytes text = .ok s →
        s.span.Exact text ∧ ∀ form level, s.HasAt form level → form.span.Exact text) ∧
      ∀ e, ofBytes text = .error e → e.Exact text :=
  ⟨fun _ => TokenStream.exact_of_mem, fun _ => TokenStream.exact_of_error,
    fun _ hs => ⟨exact_span hs, fun _ _ h => h.exact hs⟩, fun _ => exact_of_error⟩

/-- A form on the second line of a script, a byte that is no ASCII character, and a list that is not
closed where the text ends behind a line feed. -/
theorem places_exact_second_line :
    (∃ s form, ofBytes (Bytes.utf8 "(f\n  x1)") = .ok s ∧ s.HasAt form 2 ∧
      form.span = ⟨⟨5, 2, 3⟩, ⟨7, 2, 5⟩⟩ ∧ form.span.Exact (Bytes.utf8 "(f\n  x1)")) ∧
    (∃ e, TokenStream.ofBytes (Bytes.utf8 "(f\n é)") = .error e ∧ e.Exact (Bytes.utf8 "(f\n é)")) ∧
    ∃ s e, TokenStream.ofBytes (Bytes.utf8 "(f\n") = .ok s ∧
      (∀ t ∈ s.toList, t.span.Exact (Bytes.utf8 "(f\n")) ∧
        ofBytes (Bytes.utf8 "(f\n") = .error e ∧ e.Exact (Bytes.utf8 "(f\n") := by
  refine ⟨?_, ?_, ?_⟩
  · let form : Form := .symbol "x1" ⟨⟨5, 2, 3⟩, ⟨7, 2, 5⟩⟩
    let call : Form := .list [.symbol "f" ⟨⟨1, 1, 2⟩, ⟨2, 1, 3⟩⟩, form] ⟨⟨0, 1, 1⟩, ⟨8, 2, 6⟩⟩
    have hs : ofBytes (Bytes.utf8 "(f\n  x1)") = .ok ⟨[call], ⟨.first, ⟨8, 2, 6⟩⟩⟩ := by cbv
    have hform : HasAt ⟨[call], ⟨.first, ⟨8, 2, 6⟩⟩⟩ form 2 :=
      .element (.top (.head _)) (.tail _ (.head _))
    exact ⟨_, form, hs, hform, rfl, ((places_exact _).2.2.1 _ hs).2 form 2 hform⟩
  · have he : TokenStream.ofBytes (Bytes.utf8 "(f\n é)") =
        .error (.malformed TokenStream.expectedToken ⟨4, 2, 2⟩) := by cbv
    exact ⟨_, he, (places_exact _).2.1 _ he⟩
  · have hs : TokenStream.ofBytes (Bytes.utf8 "(f\n") = .ok ⟨[⟨.leftParen, ⟨⟨0, 1, 1⟩, ⟨1, 1, 2⟩⟩⟩,
        ⟨.symbol "f", ⟨⟨1, 1, 2⟩, ⟨2, 1, 3⟩⟩⟩], .point ⟨3, 2, 1⟩⟩ := by cbv
    have he : ofBytes (Bytes.utf8 "(f\n") = .error (.malformed expectedClosing ⟨3, 2, 1⟩) := by cbv
    exact ⟨_, _, hs, (places_exact _).1 _ hs, he, (places_exact _).2.2.2 _ he⟩

end Script

end SnapLisp
