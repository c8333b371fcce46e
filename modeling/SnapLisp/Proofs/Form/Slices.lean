import SnapLisp.Proofs.Form.Places
import SnapLisp.Proofs.Token.MaximalMunch

/-!
# The span of a form is its source

The bytes in the span of a form, at whatever depth it stands, spell this form and nothing else: read
on their own they are the form again, with its places counted from its start
(`Script.HasAt.readsAlone`). The forms of a level stand one after the other between the parentheses
around them, or the ends of the text, and all bytes that they leave out there are blanks
(`Script.HasAt.enclosed`,
`Script.tiles_forms`).
-/

namespace SnapLisp

open Alphabet

/-- Read on its own, the source in the span of the form is the form, in the places that count from
its start. -/
def Form.ReadsAlone (source : String) (form : Form) : Prop :=
  ∃ text form', Bytes.utf8 text = form.span.bytesOf (Bytes.utf8 source) ∧
    Script.ofString text = .ok ⟨[form'], form'.span⟩ ∧
      Form.Respanned (fun s s' => s' = s.relativeTo form.span.start) form form'

/-- If the form is a list, its first and its last byte are parentheses, and its elements stand in
between with blanks around them. -/
def Form.Enclosed (text : List UInt8) : Form → Prop
  | .list items span =>
    text[span.start.offset]? = some leftParen ∧ text[span.stop.offset - 1]? = some rightParen ∧
      Tiles text (span.start.offset + 1) (span.stop.offset - 1) (items.map Form.span)
  | .symbol .. | .number .. => True

/-! ## The tokens of one form -/

namespace Form.FlattensTo

variable {forms : List Form} {tokens : List Token}

/-- Forms leave out what their tokens leave out, but for the insides of lists. -/
theorem tiles {text : List UInt8} {start stop : Nat} (h : FlattensTo forms tokens)
    (htiles : Tiles text start stop (tokens.map Token.span)) :
    Tiles text start stop (forms.map Form.span) := by
  induction h generalizing start stop with
  | nil => exact htiles
  | symbol name span _ ih | number value span _ ih =>
    obtain ⟨hfront, hlt, hback⟩ := Tiles.cons_iff.mp htiles
    exact Tiles.cons_iff.mpr ⟨hfront, hlt, ih hback⟩
  | list opening closing _ _ _ ih =>
    rw [List.map_cons, List.map_append, List.map_cons] at htiles
    obtain ⟨hfront, hopening, hbehind⟩ := Tiles.cons_iff.mp htiles
    obtain ⟨hinner, hclosing, hback⟩ := Tiles.append_cons_iff.mp hbehind
    have hle := hinner.le
    refine Tiles.cons_iff.mpr ⟨hfront, ?_, ih hback⟩
    exact Nat.lt_trans hopening (Nat.lt_of_le_of_lt hle hclosing)

end Form.FlattensTo

namespace Script

variable {source : String} {s : Script} {form : Form} {level : Nat}

/-- **Slices.** What stands in the span of a form is the form. -/
theorem HasAt.readsAlone (hs : ofString source = .ok s) (h : s.HasAt form level) :
    form.ReadsAlone source := by
  obtain ⟨stream, hstream, hforms, -⟩ := exists_tokens_of_ofString hs
  obtain ⟨own, hown, hpart⟩ := h.exists_tokens hforms
  obtain ⟨first, last, hfirst, hlast, hspan⟩ := hown.exists_ends
  have hlexed := (TokenStream.scan_eq_ok_iff.mp hstream).1
  obtain ⟨before, part, after, htext, hslice, hstart, hstop⟩ := hlexed.slice hpart hfirst hlast
  rw [hstart, hstop] at hspan
  have hcovers : form.span.Covers .first (Bytes.utf8 source) part :=
    ⟨before, after, by rw [htext, List.append_assoc], hspan⟩
  have hutf8 := Bytes.utf8_ofAscii hslice.ascii
  -- the slice is read in a place of its own
  have hfollows := Position.follows_self_advance_first before
  obtain ⟨forms', hforms', hrel⟩ := hown.shifted (·.relativeTo (Position.first.advance before))
  have hshift := Position.shift_relativeTo (Position.first.advance before)
  have hscan := (hslice.shifted hshift hfollows).scan_eq
  have horigin := Position.relativeTo_self hfollows
  have hend : (Position.first.advance (before ++ part)).relativeTo
      (Position.first.advance before) = Position.first.advance part := by
    rw [Position.advance_append, hshift.shift_advance hfollows, horigin]
  rw [horigin] at hscan
  obtain ⟨form', rfl, hform'⟩ : ∃ form', forms' = [form'] ∧ Form.Respanned
      (fun s s' => s' = s.relativeTo (Position.first.advance before)) form form' := by
    cases hrel with
    | cons hhead htail =>
      cases htail
      exact ⟨_, rfl, hhead⟩
  have hwhole : form'.span = ⟨.first, Position.first.advance part⟩ := by
    rw [hform'.span, hspan, Span.relativeTo, Span.shifted, hend, horigin]
  refine ⟨Bytes.ofAscii part, form', by rw [hutf8, hcovers.bytesOf_eq], ?_, ?_⟩
  · rw [ofString, ofBytes, hutf8, TokenStream.ofBytes, hscan, hwhole]
    exact hforms'.read_eq_ok _
  · rw [hspan]
    exact hform'

/-- **Lists.** Only blanks stand between the elements of a list. -/
theorem HasAt.enclosed (hs : ofString source = .ok s) (h : s.HasAt form level) :
    form.Enclosed (Bytes.utf8 source) := by
  cases form with
  | symbol | number => trivial
  | list items span =>
    obtain ⟨stream, hstream, hforms, -⟩ := exists_tokens_of_ofString hs
    obtain ⟨own, hown, front, back, htokens⟩ := h.exists_tokens hforms
    obtain ⟨opening, inner, closing, rfl, hitems, rfl⟩ := hown.exists_parens
    have hlexed := (TokenStream.scan_eq_ok_iff.mp hstream).1
    have htiles := hlexed.tiles [] rfl
    have hmunches := hlexed.munches
    generalize Bytes.utf8 source = text at *
    rw [← htokens] at htiles hmunches
    -- the parentheses are single bytes of the text
    have hopening : opening.bytesOf text = [leftParen] :=
      hmunches ⟨.leftParen, opening⟩ (by simp)
    have hclosing : closing.bytesOf text = [rightParen] :=
      hmunches ⟨.rightParen, closing⟩ (by simp)
    have hinside := htiles.inside
    have hinOpening := (hinside opening (by simp)).2.2
    have hinClosing := (hinside closing (by simp)).2.2
    obtain ⟨hopen, hleft⟩ := Span.of_bytesOf_singleton hopening (by simpa using hinOpening)
    obtain ⟨hclose, hright⟩ := Span.of_bytesOf_singleton hclosing (by simpa using hinClosing)
    have hbetween : Tiles text opening.stop.offset closing.start.offset
        (inner.map Token.span) := by
      simp only [List.append_assoc, List.map_append, List.map_cons, List.cons_append,
        List.nil_append] at htiles
      have hbehind := (Tiles.append_cons_iff.mp htiles).2.2
      exact (Tiles.append_cons_iff.mp hbehind).1
    have hstart : closing.stop.offset - 1 = closing.start.offset := by omega
    refine ⟨hleft, ?_, ?_⟩
    · rw [hstart]
      exact hright
    · rw [hstart, ← hopen]
      exact hitems.tiles hbetween

/-- **The top level.** Only blanks stand between the forms of a script, whose span is the text. -/
theorem tiles_forms (hs : ofString source = .ok s) :
    Tiles (Bytes.utf8 source) 0 (Bytes.utf8 source).length (s.forms.map Form.span) ∧
      s.span = ⟨.first, .inText (Bytes.utf8 source) (Bytes.utf8 source).length⟩ := by
  obtain ⟨stream, hstream, hforms, hspan⟩ := exists_tokens_of_ofString hs
  obtain ⟨hlexed, heof⟩ := TokenStream.scan_eq_ok_iff.mp hstream
  refine ⟨hforms.tiles (hlexed.tiles [] rfl), ?_⟩
  rw [hspan, heof, ← Position.advance_first]
  rfl

/-- **Spans.** Every form of a script is what its span cuts out of the source, and the forms of each
level leave out blanks only. The span of the script reaches from the start of the source to its
end. -/
theorem spans_of_ofString (hs : ofString source = .ok s) :
    (∀ form level, s.HasAt form level →
      form.ReadsAlone source ∧ form.Enclosed (Bytes.utf8 source)) ∧
        Tiles (Bytes.utf8 source) 0 (Bytes.utf8 source).length (s.forms.map Form.span) ∧
          s.span = ⟨.first, .inText (Bytes.utf8 source) (Bytes.utf8 source).length⟩ :=
  ⟨fun _ _ h => ⟨h.readsAlone hs, h.enclosed hs⟩, tiles_forms hs⟩

/-- A list that starts and goes on behind line breaks, inside of another one. -/
theorem spans_of_ofString_nested :
    let source := " (f\n  (g y\n x))"
    ∃ s items, ofString source = .ok s ∧
      s.HasAt (.list items ⟨⟨6, 2, 3⟩, ⟨14, 3, 4⟩⟩) 2 ∧
        (Form.list items ⟨⟨6, 2, 3⟩, ⟨14, 3, 4⟩⟩).ReadsAlone source := by
  intro source
  let items : List Form := [.symbol "g" ⟨⟨7, 2, 4⟩, ⟨8, 2, 5⟩⟩, .symbol "y" ⟨⟨9, 2, 6⟩, ⟨10, 2, 7⟩⟩,
    .symbol "x" ⟨⟨12, 3, 2⟩, ⟨13, 3, 3⟩⟩]
  let call : Form := .list [.symbol "f" ⟨⟨2, 1, 3⟩, ⟨3, 1, 4⟩⟩,
    .list items ⟨⟨6, 2, 3⟩, ⟨14, 3, 4⟩⟩] ⟨⟨1, 1, 2⟩, ⟨15, 3, 5⟩⟩
  have hs : ofString source = .ok ⟨[call], ⟨.first, ⟨15, 3, 5⟩⟩⟩ := by cbv
  have hform : HasAt ⟨[call], ⟨.first, ⟨15, 3, 5⟩⟩⟩ (.list items ⟨⟨6, 2, 3⟩, ⟨14, 3, 4⟩⟩) 2 :=
    .element (.top (.head _)) (.tail _ (.head _))
  exact ⟨_, items, hs, hform, ((spans_of_ofString hs).1 _ _ hform).1⟩

end Script

end SnapLisp
