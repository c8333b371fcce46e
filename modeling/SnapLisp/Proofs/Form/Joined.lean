import SnapLisp.Proofs.Form.Balance
import SnapLisp.Proofs.Form.Respanned
import SnapLisp.Proofs.Token.Seam

/-!
# The forms of two texts, one under the other

Two texts that are scripts make one script together, if a line feed stands between them: its forms
are those of the first text, and those of the second one with their spans moved down
(`Script.ofString_joined`).
-/

namespace SnapLisp

/-- The second span is the first one, moved below the given bytes. -/
def Span.MovedBelow (above : List UInt8) (s s' : Span) : Prop := s' = s.below above

/-- Forms whose tokens are moved are moved themselves. -/
theorem Form.FlattensTo.shifted (shift : Position → Position) {forms : List Form}
    {tokens : List Token} (h : FlattensTo forms tokens) :
    ∃ forms', FlattensTo forms' (tokens.map (Token.shifted shift)) ∧
      List.Forall₂ (Form.Respanned fun s s' => s' = s.shifted shift) forms forms' := by
  induction h with
  | nil => exact ⟨[], .nil, .nil⟩
  | symbol name span _ ih =>
    obtain ⟨forms', hforms', hmoved⟩ := ih
    exact ⟨_, .symbol name _ hforms', .cons (.symbol name rfl) hmoved⟩
  | number value span _ ih =>
    obtain ⟨forms', hforms', hmoved⟩ := ih
    exact ⟨_, .number value _ hforms', .cons (.number value rfl) hmoved⟩
  | list opening closing _ _ ihitems ih =>
    obtain ⟨items', hitems', hmoved⟩ := ihitems
    obtain ⟨forms', hforms', hmoved'⟩ := ih
    refine ⟨_, ?_, .cons (.list hmoved rfl) hmoved'⟩
    rw [List.map_cons, List.map_append, List.map_cons]
    exact .list (opening.shifted shift) (closing.shifted shift) hitems' hforms'

namespace Script

/-- If the input ends behind the tokens only, the forms are made of all of them. -/
theorem flattensTo_of_ofTokens {stream : TokenStream} {s : Script} (h : ofTokens stream = .ok s)
    (hne : ∀ t ∈ stream.tokens, t.kind ≠ .eof) :
    Form.FlattensTo s.forms stream.tokens ∧ s.span = ⟨.first, stream.eof.stop⟩ := by
  obtain ⟨front, t, rest, hsplit, -, hr⟩ := holds_nil.reaches passable_nil stream.eof stream.tokens
  rw [List.nil_append, show read [] [] stream.eof stream.tokens = .ok s from h] at hr
  cases hr with
  | @complete _ span hforms =>
    rcases List.eq_nil_or_concat rest with rfl | ⟨rest, last, rfl⟩
    · obtain ⟨rfl, hlast⟩ := List.append_inj' hsplit rfl
      cases hlast
      exact ⟨hforms, rfl⟩
    · rw [List.concat_eq_append, ← List.cons_append, ← List.append_assoc] at hsplit
      obtain ⟨htokens, -⟩ := List.append_inj' hsplit rfl
      exact absurd rfl (hne ⟨.eof, span⟩ (by rw [htokens]; simp))

theorem exists_tokens_of_ofBytes {bytes : List UInt8} {s : Script} (h : ofBytes bytes = .ok s) :
    ∃ stream, TokenStream.ofBytes bytes = .ok stream ∧
      Form.FlattensTo s.forms stream.tokens ∧ s.span = ⟨.first, stream.eof.stop⟩ := by
  cases hstream : TokenStream.ofBytes bytes with
  | error e =>
    rw [ofBytes, hstream] at h
    cases h
  | ok stream =>
    rw [ofBytes, hstream] at h
    exact ⟨stream, rfl, flattensTo_of_ofTokens h (TokenStream.ne_eof_of_scan hstream)⟩

theorem exists_tokens_of_ofString {source : String} {s : Script} (h : ofString source = .ok s) :
    ∃ stream, TokenStream.ofBytes (Bytes.utf8 source) = .ok stream ∧
      Form.FlattensTo s.forms stream.tokens ∧ s.span = ⟨.first, stream.eof.stop⟩ :=
  exists_tokens_of_ofBytes h

/-- **Joining.** Two scripts, one under the other, are one script. -/
theorem ofString_joined {above source : String} {s s' : Script} (hs : ofString above = .ok s)
    (hs' : ofString source = .ok s') :
    ∃ forms, ofString (above ++ "\n" ++ source) = .ok ⟨s.forms ++ forms,
        ⟨.first, s'.span.stop.below (Bytes.utf8 above)⟩⟩ ∧
      List.Forall₂ (Form.Respanned (Span.MovedBelow (Bytes.utf8 above))) s'.forms forms := by
  obtain ⟨stream, hstream, hforms, -⟩ := exists_tokens_of_ofString hs
  obtain ⟨stream', hstream', hforms', hspan⟩ := exists_tokens_of_ofString hs'
  obtain ⟨moved, hmoved, hrel⟩ := hforms'.shifted (Position.below (Bytes.utf8 above))
  have hbytes : Bytes.utf8 (above ++ "\n" ++ source) =
      Bytes.utf8 above ++ Position.lineFeed :: Bytes.utf8 source := by
    rw [Bytes.utf8_append, Bytes.utf8_append, List.append_assoc]
    rfl
  refine ⟨moved, ?_, hrel⟩
  rw [ofString, ofBytes, hbytes, TokenStream.ofBytes_under hstream hstream', hspan]
  exact (hforms.append hmoved).read_eq_ok _

end Script

end SnapLisp
