import SnapLisp.Proofs.Form.Joined
import SnapLisp.Proofs.Form.Nesting
import SnapLisp.Proofs.Token.Places

/-!
# The places of forms

A form of a script is made of some of the tokens of the text, one after the other
(`Script.HasAt.exists_tokens`), and it starts where the first one of them starts. So its span starts
in a place of the text, and the bytes in the span of a symbol are its name.
-/

namespace SnapLisp

namespace Form.FlattensTo

variable {form : Form} {forms items : List Form} {span : Span} {tokens : List Token}

/-- A form is made of tokens that follow each other. -/
theorem exists_tokens_of_mem (h : FlattensTo forms tokens) (hform : form ∈ forms) :
    ∃ own, FlattensTo [form] own ∧ own <:+: tokens := by
  induction h with
  | nil => cases hform
  | symbol name span _ ih =>
    rcases List.mem_cons.mp hform with rfl | hform
    · exact ⟨_, .symbol name span .nil, [], _, rfl⟩
    · obtain ⟨own, hown, hpart⟩ := ih hform
      exact ⟨own, hown, hpart.trans (List.suffix_cons _ _).isInfix⟩
  | number value span _ ih =>
    rcases List.mem_cons.mp hform with rfl | hform
    · exact ⟨_, .number value span .nil, [], _, rfl⟩
    · obtain ⟨own, hown, hpart⟩ := ih hform
      exact ⟨own, hown, hpart.trans (List.suffix_cons _ _).isInfix⟩
  | @list opening closing items forms inner tokens hitems _ _ ih =>
    rcases List.mem_cons.mp hform with rfl | hform
    · exact ⟨_, .list opening closing hitems .nil, [], tokens, by simp⟩
    · obtain ⟨own, hown, hpart⟩ := ih hform
      exact ⟨own, hown, hpart.trans ⟨⟨.leftParen, opening⟩ :: (inner ++ [⟨.rightParen, closing⟩]),
        [], by simp⟩⟩

/-- A list has its parentheses around the tokens of its elements. -/
theorem exists_parens (h : FlattensTo [.list items span] tokens) :
    ∃ opening inner closing,
      tokens = ⟨.leftParen, opening⟩ :: (inner ++ [⟨.rightParen, closing⟩]) ∧
        FlattensTo items inner ∧ span = ⟨opening.start, closing.stop⟩ := by
  cases h with
  | @list opening closing _ _ inner _ hitems hrest =>
    cases hrest
    exact ⟨opening, inner, closing, rfl, hitems, rfl⟩

/-- A form reaches from the start of its first token to the end of its last one. -/
theorem exists_ends (h : FlattensTo [form] tokens) :
    ∃ first last, tokens.head? = some first ∧ tokens.getLast? = some last ∧
      form.span = ⟨first.span.start, last.span.stop⟩ := by
  cases h with
  | symbol name span hrest | number value span hrest =>
    cases hrest
    exact ⟨_, _, rfl, rfl, rfl⟩
  | @list opening closing items _ inner _ hitems hrest =>
    cases hrest
    refine ⟨⟨.leftParen, opening⟩, ⟨.rightParen, closing⟩, rfl, ?_, rfl⟩
    rw [← List.cons_append, List.getLast?_concat]

end Form.FlattensTo

/-- The tokens of a form stand among those of the script. -/
theorem Script.HasAt.exists_tokens {s : Script} {form : Form} {level : Nat} {tokens : List Token}
    (h : s.HasAt form level) (hs : Form.FlattensTo s.forms tokens) :
    ∃ own, Form.FlattensTo [form] own ∧ own <:+: tokens := by
  induction h with
  | top hform => exact hs.exists_tokens_of_mem hform
  | element _ hform ih =>
    obtain ⟨outer, houter, hpart⟩ := ih
    obtain ⟨opening, inner, closing, rfl, hinner, -⟩ := houter.exists_parens
    obtain ⟨own, hown, hpart'⟩ := hinner.exists_tokens_of_mem hform
    have hinside : inner <:+: ⟨.leftParen, opening⟩ :: (inner ++ [⟨.rightParen, closing⟩]) :=
      ⟨[⟨.leftParen, opening⟩], [⟨.rightParen, closing⟩], by simp⟩
    exact ⟨own, hown, hpart'.trans (hinside.trans hpart)⟩

namespace Form.InSource

variable {source : String} {form : Form} {level : Nat}

/-- The tokens of a form of a source text lie in the text. -/
theorem exists_tokens (h : InSource source form level) :
    ∃ own, FlattensTo [form] own ∧ ∀ t ∈ own, t.LiesIn .first (Bytes.utf8 source) := by
  obtain ⟨s, hs, hform⟩ := h
  obtain ⟨stream, hstream, hforms, -⟩ := Script.exists_tokens_of_ofString hs
  obtain ⟨own, hown, hpart⟩ := hform.exists_tokens hforms
  exact ⟨own, hown, fun t ht => TokenStream.liesIn_of_scan hstream t (hpart.subset ht)⟩

/-- A form starts behind some of the bytes of the text. -/
theorem exists_front (h : InSource source form level) :
    ∃ front, front <+: Bytes.utf8 source ∧ form.span.start = Position.first.advance front := by
  obtain ⟨own, hown, hlies⟩ := h.exists_tokens
  obtain ⟨first, last, hfirst, -, hends⟩ := hown.exists_ends
  obtain ⟨part, ⟨front, back, htext, hspan⟩, -⟩ := hlies first (List.mem_of_head? hfirst)
  refine ⟨front, ⟨part ++ back, by rw [htext, List.append_assoc]⟩, ?_⟩
  rw [hends, hspan]

/-- The bytes in the span of a symbol are its name. -/
theorem bytesOf_symbol {name : String} {span : Span}
    (h : InSource source (.symbol name span) level) :
    span.bytesOf (Bytes.utf8 source) = Bytes.utf8 name := by
  obtain ⟨own, hown, hlies⟩ := h.exists_tokens
  cases hown with
  | symbol =>
    obtain ⟨part, hcovers, hpart⟩ := hlies _ (.head _)
    rw [hcovers.bytesOf_eq]
    exact hpart name rfl

end Form.InSource

end SnapLisp
