import SnapLisp.Proofs.Form.Leaves
import SnapLisp.Proofs.Token.Spelling

/-!
# The texts of canonical forms

A form is canonical if all its symbols are lexemes and all its numbers natural numbers. The text of
a canonical form spells the form's own tokens, `Form.kinds`, and nothing else (`Form.spells_text`):
between two elements of a list stands a blank, so neither runs into the other. So the lexer makes
of the text of a canonical script the tokens of its forms (`Script.tokens_of_text`).
-/

namespace SnapLisp

/-- All symbols of the form are lexemes, and all its numbers natural numbers. -/
structure Form.Canonical (f : Form) : Prop where
  lexeme : ∀ name ∈ f.symbols, IsLexeme name
  whole : ∀ value ∈ f.numbers, Number.Whole value

/-- All forms of the script are canonical. -/
def Script.Canonical (s : Script) : Prop := ∀ f ∈ s.forms, f.Canonical

namespace Form

/-! ## Canonical forms by their shape -/

theorem canonical_symbol {name : String} {span : Span} :
    (symbol name span).Canonical ↔ IsLexeme name := by
  refine ⟨fun h => h.lexeme name (by simp [symbols]), fun h => ⟨fun other hother => ?_, ?_⟩⟩
  · rw [symbols, List.mem_singleton] at hother
    rwa [hother]
  · simp [numbers]

theorem canonical_number {value : Float} {span : Span} :
    (number value span).Canonical ↔ Number.Whole value := by
  refine ⟨fun h => h.whole value (by simp [numbers]), fun h => ⟨?_, fun other hother => ?_⟩⟩
  · simp [symbols]
  · rw [numbers, List.mem_singleton] at hother
    rwa [hother]

theorem canonical_list {items : List Form} {span : Span} :
    (list items span).Canonical ↔ ∀ item ∈ items, item.Canonical := by
  constructor
  · intro h item hitem
    exact ⟨fun name hname => h.lexeme name (mem_symbolsAll.mpr ⟨item, hitem, hname⟩),
      fun value hvalue => h.whole value (mem_numbersAll.mpr ⟨item, hitem, hvalue⟩)⟩
  · intro h
    refine ⟨fun name hname => ?_, fun value hvalue => ?_⟩
    · obtain ⟨item, hitem, hname⟩ := mem_symbolsAll.mp hname
      exact (h item hitem).lexeme name hname
    · obtain ⟨item, hitem, hvalue⟩ := mem_numbersAll.mp hvalue
      exact (h item hitem).whole value hvalue

/-! ## Tokens of a form -/

mutual

/-- The kinds of the tokens that a form consists of. -/
def kinds : Form → List TokenKind
  | .symbol name _ => [.symbol name]
  | .number value _ => [.number value]
  | .list items _ => .leftParen :: (kindsAll items ++ [.rightParen])

/-- The kinds of the tokens that the forms of a list consist of. -/
def kindsAll : List Form → List TokenKind
  | [] => []
  | f :: fs => kinds f ++ kindsAll fs

end

/-- Texts with a blank between each two of them. -/
theorem spells_intercalate {separator : String} {blank : UInt8}
    (hseparator : Bytes.utf8 separator = [blank]) (hblank : Alphabet.isBlank blank = true)
    {forms : List Form} (h : ∀ f ∈ forms, Spells (Bytes.utf8 f.text) f.kinds) :
    Spells (Bytes.utf8 (separator.intercalate (texts forms))) (kindsAll forms) := by
  induction forms with
  | nil => exact .nil
  | cons f fs ih =>
    have hfront := h f (.head _)
    have hback := ih fun g hg => h g (.tail _ hg)
    cases fs with
    | nil =>
      rw [texts, texts, String.intercalate_singleton, kindsAll, kindsAll, List.append_nil]
      exact hfront
    | cons g fs =>
      rw [texts, texts, String.intercalate_cons_cons, Bytes.utf8_append, Bytes.utf8_append,
        hseparator, List.append_assoc, List.singleton_append, kindsAll]
      rw [texts] at hback
      exact hfront.append_blank hblank hback

/-- **Spelling.** The text of a canonical form spells the form's own tokens. -/
theorem spells_text (f : Form) : f.Canonical → Spells (Bytes.utf8 f.text) f.kinds := by
  induction f using induction with
  | symbol name span => exact fun h => .symbol (canonical_symbol.mp h)
  | number value span => exact fun h => .number (canonical_number.mp h)
  | list items span ih =>
    intro h
    have hitems : Spells (Bytes.utf8 (" ".intercalate (texts items))) (kindsAll items) :=
      spells_intercalate rfl rfl fun item hitem => ih item hitem (canonical_list.mp h item hitem)
    rw [text, Bytes.utf8_append, Bytes.utf8_append, List.append_assoc, kinds]
    exact hitems.parens

end Form

/-- The lexer makes of the text of a canonical script the tokens of its forms. -/
theorem Script.tokens_of_text {s : Script} (h : s.Canonical) :
    ∃ stream, TokenStream.ofBytes (Bytes.utf8 s.text) = .ok stream ∧
      stream.tokens.map Token.kind = Form.kindsAll s.forms :=
  (Form.spells_intercalate rfl rfl fun f hf => f.spells_text (h f hf)).ofBytes

end SnapLisp
