import Mathlib.Data.List.Forall2
import SnapLisp.Editor.Highlight
import SnapLisp.Proofs.Token.MaximalMunch

/-!
# The parts of a line

The highlighter keeps the line: its parts are not empty, and one after the other they are the line
(`Part.flatMap_cut`). They also keep to the tokens. Each token is a part in the style of its kind
(`Styled`), and the other parts are blank and fill the gaps between the tokens (`Part.Colours`).

Here the highlighter cuts the bytes of the line. `highlightByOffset` cuts the text itself, at the
offsets of the tokens, and refuses to cut outside of the text or inside of a character. It is never
refused, and comes to the same parts: a line with tokens is ASCII, and the tokens tile it
(`Part.paint_eq`).
-/

namespace SnapLisp

open Alphabet

/-! ## Cutting a text at offsets -/

/-- Why a text is not cut. -/
inductive CutFault where
  /-- The range ends in front of its start, or beyond the text. -/
  | outOfRange
  /-- An end of the range is inside of a character. -/
  | insideCharacter
  deriving DecidableEq

/-- The part of a text between two offsets, which count bytes. -/
def Checked.substring (text : String) (start stop : Nat) : Except CutFault String :=
  if start ≤ stop ∧ stop ≤ text.utf8ByteSize then
    if h : String.Pos.Raw.IsValid text ⟨start⟩ ∧ String.Pos.Raw.IsValid text ⟨stop⟩ then
      .ok (String.extract (text.pos _ h.1) (text.pos _ h.2))
    else .error .insideCharacter
  else .error .outOfRange

section Substring

variable {text : String} {start stop : Nat}

/-- In an ASCII text every offset is between two characters. -/
theorem Bytes.isValid_of_ascii (h : ∀ b ∈ utf8 text, b < 128) (hle : start ≤ (utf8 text).length) :
    String.Pos.Raw.IsValid text ⟨start⟩ := by
  have hfront : utf8 (ofAscii ((utf8 text).take start)) = (utf8 text).take start :=
    utf8_ofAscii fun b hb => h b (List.mem_of_mem_take hb)
  have hback : utf8 (ofAscii ((utf8 text).drop start)) = (utf8 text).drop start :=
    utf8_ofAscii fun b hb => h b (List.mem_of_mem_drop hb)
  have hsize : start = (ofAscii ((utf8 text).take start)).utf8ByteSize := by
    rw [← length_utf8, hfront, List.length_take, Nat.min_eq_left hle]
  refine String.Pos.Raw.isValid_iff_exists_append.mpr
    ⟨_, ofAscii ((utf8 text).drop start), ?_, congrArg String.Pos.Raw.mk hsize⟩
  apply utf8_injective
  rw [utf8_append, hfront, hback, List.take_append_drop]

theorem Bytes.utf8_extract (first last : text.Pos) : utf8 (String.extract first last) =
    ((utf8 text).drop first.offset.byteIdx).take (last.offset.byteIdx - first.offset.byteIdx) := by
  rw [← List.extract_eq_take_drop]
  show (String.extract first last).toByteArray.data.toList = _
  rw [String.toByteArray_extract, ByteArray.data_extract, Array.toList_extract]
  rfl

theorem Checked.substring_of_ascii (h : ∀ b ∈ Bytes.utf8 text, b < 128) (hle : start ≤ stop)
    (hstop : stop ≤ (Bytes.utf8 text).length) : substring text start stop =
      .ok (Bytes.ofAscii (((Bytes.utf8 text).drop start).take (stop - start))) := by
  have hfirst := Bytes.isValid_of_ascii h (Nat.le_trans hle hstop)
  have hlast := Bytes.isValid_of_ascii h hstop
  have hsize : stop ≤ text.utf8ByteSize := Bytes.length_utf8 text ▸ hstop
  rw [substring, if_pos ⟨hle, hsize⟩, dif_pos ⟨hfirst, hlast⟩]
  congr 1
  apply Bytes.utf8_injective
  rw [Bytes.utf8_extract, Bytes.utf8_ofAscii]
  · rfl
  · exact fun b hb => h b (List.mem_of_mem_drop (List.mem_of_mem_take hb))

end Substring

namespace Part

/-- The part between two offsets that belong to no token, if anything is there. -/
def paintGap (line : String) (start stop : Nat) : Except CutFault (List Part) := do
  if start < stop then return [⟨.plain, ← Checked.substring line start stop⟩]
  else return []

/-- The parts from an offset on, by the tokens that are left. -/
def paint (line : String) (cursor : Nat) : List Token → Except CutFault (List Part)
  | [] => paintGap line cursor line.utf8ByteSize
  | token :: rest =>
    match styleOf? token.kind with
    | none => paintGap line cursor line.utf8ByteSize
    | some style => do
      let before ← paintGap line cursor token.span.start.offset
      let text ← Checked.substring line token.span.start.offset token.span.stop.offset
      let behind ← paint line token.span.stop.offset rest
      return before ++ ⟨style, text⟩ :: behind

end Part

/-- The parts of a line, cut out of the line at the offsets of its tokens. -/
def highlightByOffset (line : String) : Except CutFault (List Part) :=
  match TokenStream.ofString line with
  | .ok stream => Part.paint line 0 stream.toList
  | .error _ => .ok [⟨.plain, line⟩]

/-! ## Parts and tokens -/

/-- The style of a token of some kind. -/
inductive Styled : TokenKind → Style → Prop where
  | leftParen : Styled .leftParen .paren
  | rightParen : Styled .rightParen .paren
  | number (value : Float) : Styled (.number value) .literal
  | builtin (op : Builtin) : Styled (.symbol op.name) .keyword
  | other {name : String} : (∀ op : Builtin, op.name ≠ name) → Styled (.symbol name) .plain

namespace Part

/-- The part consists of blanks. -/
def isBlank (part : Part) : Bool := (Bytes.utf8 part.text).all Alphabet.isBlank

/-- The parts with the offsets that they start at, the first one at the given offset. -/
def placed (offset : Nat) : List Part → List (Nat × Part)
  | [] => []
  | part :: rest => (offset, part) :: placed (offset + part.text.utf8ByteSize) rest

/-- The part stands where the token does, and shows its text in the style of its kind. -/
structure Shows (text : List UInt8) (part : Nat × Part) (token : Token) : Prop where
  offset : part.1 = token.span.start.offset
  text : Bytes.utf8 part.2.text = token.span.bytesOf text
  style : Styled token.kind part.2.style

/-- The parts are those of a stretch of a text, coloured by the tokens in it. -/
structure Colours (text : List UInt8) (first last : Nat) (tokens : List Token)
    (parts : List Part) : Prop where
  reach : last = first + (parts.map (·.text.utf8ByteSize)).sum
  /-- The parts that are not blank show the tokens, in order. -/
  shown : List.Forall₂ (Shows text) ((placed first parts).filter (!·.2.isBlank)) tokens
  plain : ∀ part ∈ parts, part.isBlank = true → part.style = .plain
  /-- The blank parts fill the gaps. -/
  gaps : ∀ start stop, IsGap first last (tokens.map Token.span) start stop ↔
    ∃ part, (start, part) ∈ placed first parts ∧ part.isBlank = true ∧
      stop = start + part.text.utf8ByteSize

theorem styleOf?_eq_some_iff {kind : TokenKind} {style : Style} :
    styleOf? kind = some style ↔ Styled kind style := by
  constructor
  · intro h
    cases kind with
    | leftParen => cases h; exact .leftParen
    | rightParen => cases h; exact .rightParen
    | number value => cases h; exact .number value
    | eof => cases h
    | symbol name =>
      cases h
      cases hname : Builtin.ofName? name with
      | some op =>
        obtain rfl := Builtin.ofName?_eq_some_iff.mp hname
        exact .builtin op
      | none =>
        refine .other fun op heq => ?_
        rw [Builtin.ofName?_eq_some_iff.mpr heq] at hname
        cases hname
  · intro h
    cases h with
    | leftParen | rightParen | number => rfl
    | builtin op => rw [styleOf?, Builtin.ofName?_name]; rfl
    | @other name hname =>
      have hnone : Builtin.ofName? name = none :=
        Option.eq_none_iff_forall_ne_some.mpr fun op heq =>
          hname op (Builtin.ofName?_eq_some_iff.mp heq)
      rw [styleOf?, hnone]
      rfl

theorem exists_style {kind : TokenKind} (h : kind ≠ .eof) :
    ∃ style, styleOf? kind = some style := by
  cases kind with
  | leftParen | rightParen | symbol | number => exact ⟨_, rfl⟩
  | eof => exact absurd rfl h

theorem placed_append (offset : Nat) (front back : List Part) : placed offset (front ++ back) =
    placed offset front ++ placed (offset + (front.map (·.text.utf8ByteSize)).sum) back := by
  induction front generalizing offset with
  | nil => rfl
  | cons part front ih =>
    rw [List.cons_append, placed, placed, ih, List.map_cons, List.sum_cons, Nat.add_assoc,
      List.cons_append]

theorem Shows.size_eq {text : List UInt8} {part : Nat × Part} {token : Token}
    (h : Shows text part token) (hstop : token.span.stop.offset ≤ text.length) :
    part.2.text.utf8ByteSize = token.span.stop.offset - token.span.start.offset := by
  rw [← Bytes.length_utf8, h.text, Span.length_bytesOf hstop]

theorem Shows.isBlank_eq_false {text : List UInt8} {part : Nat × Part} {token : Token}
    (h : Shows text part token) (hmunches : token.Munches text) : part.2.isBlank = false := by
  obtain ⟨b, body, hbytes, hstarts⟩ := TokenKind.Munches.exists_cons hmunches
  rw [isBlank, h.text, hbytes, List.all_cons, hstarts.isBlank_eq_false, Bool.false_and]

/-- An empty stretch has no parts. -/
theorem Colours.nil (text : List UInt8) (n : Nat) : Colours text n n [] [] where
  reach := rfl
  shown := .nil
  plain := nofun
  gaps start stop := by
    rw [List.map_nil, isGap_nil_iff]
    constructor
    · rintro ⟨rfl, rfl, hlt⟩
      exact absurd hlt (Nat.lt_irrefl _)
    · rintro ⟨part, hmem, -⟩
      cases hmem

/-- Stretches on both sides of a token. -/
theorem Colours.append_cons {text : List UInt8} {first last : Nat} {token : Token}
    {tokens : List Token} {front back : List Part} {part : Part}
    (htiles : Tiles text first last (token.span :: tokens.map Token.span))
    (hlast : last ≤ text.length) (hmunches : token.Munches text)
    (hfront : Colours text first token.span.start.offset [] front)
    (hpart : Shows text (token.span.start.offset, part) token)
    (hback : Colours text token.span.stop.offset last tokens back) :
    Colours text first last (token :: tokens) (front ++ part :: back) := by
  obtain ⟨-, hlt, hrest⟩ := Tiles.cons_iff.mp htiles
  have hsize := hpart.size_eq (Nat.le_trans hrest.le hlast)
  have hblank := hpart.isBlank_eq_false hmunches
  have hstop : token.span.start.offset + part.text.utf8ByteSize = token.span.stop.offset := by
    rw [hsize]
    omega
  have hplaced : placed first (front ++ part :: back) =
      placed first front ++ (token.span.start.offset, part) ::
        placed token.span.stop.offset back := by
    rw [placed_append, ← hfront.reach, placed, hstop]
  refine ⟨?_, ?_, ?_, fun start stop => ?_⟩
  · rw [List.map_append, List.map_cons, List.sum_append, List.sum_cons, ← Nat.add_assoc,
      ← hfront.reach, ← Nat.add_assoc, hstop]
    exact hback.reach
  · rw [hplaced, List.filter_append, List.filter_cons_of_pos (by simp [hblank]),
      List.forall₂_nil_right_iff.mp hfront.shown]
    exact .cons hpart hback.shown
  · refine List.forall_mem_append.mpr ⟨hfront.plain, List.forall_mem_cons.mpr ⟨?_, hback.plain⟩⟩
    rw [hblank]
    nofun
  · rw [List.map_cons, htiles.isGap_cons_iff, hback.gaps, ← isGap_nil_iff]
    have hgaps := hfront.gaps start stop
    rw [List.map_nil] at hgaps
    rw [hgaps, hplaced]
    constructor
    · rintro (⟨gap, hmem, hgap⟩ | ⟨gap, hmem, hgap⟩)
      · exact ⟨gap, List.mem_append_left _ hmem, hgap⟩
      · exact ⟨gap, List.mem_append_right _ (.tail _ hmem), hgap⟩
    · rintro ⟨gap, hmem, hgap⟩
      rcases List.mem_append.mp hmem with hmem | hmem
      · exact .inl ⟨gap, hmem, hgap⟩
      · rcases List.mem_cons.mp hmem with heq | hmem
        · -- the token is no gap
          obtain ⟨-, rfl⟩ := Prod.mk.inj heq
          rw [hblank] at hgap
          cases hgap.1
        · exact .inr ⟨gap, hmem, hgap⟩

/-! ## Cutting a line at its tokens -/

section Cut

variable {text : List UInt8} {first last cursor : Nat} {token : Token} {tokens : List Token}

/-- Bytes between two offsets are a part if there are any. -/
theorem gap_take (h : last ≤ text.length) : gap ((text.drop first).take (last - first)) =
    if first < last then [⟨.plain, Bytes.ofAscii ((text.drop first).take (last - first))⟩]
    else [] := by
  have hlength : ((text.drop first).take (last - first)).length = last - first := by
    rw [List.length_take, List.length_drop]
    omega
  unfold gap
  split
  · rename_i hempty
    rw [List.isEmpty_iff] at hempty
    rw [hempty, List.length_nil] at hlength
    rw [if_neg (by omega)]
  · rename_i hne
    rw [if_pos]
    by_contra hle
    exact hne (List.isEmpty_iff.mpr (List.eq_nil_of_length_eq_zero (by omega)))

theorem gap_drop (text : List UInt8) (cursor : Nat) :
    gap (text.drop cursor) = gap ((text.drop cursor).take (text.length - cursor)) := by
  rw [← List.length_drop, List.take_length]

/-- A stretch without tokens is a gap. -/
theorem colours_gap (hascii : ∀ b ∈ text, b < 128) (htiles : Tiles text first last [])
    (hlast : last ≤ text.length) :
    Colours text first last [] (gap ((text.drop first).take (last - first))) := by
  have hbytes : Bytes.utf8 (Bytes.ofAscii ((text.drop first).take (last - first))) =
      (text.drop first).take (last - first) :=
    Bytes.utf8_ofAscii fun b hb => hascii b (List.mem_of_mem_drop (List.mem_of_mem_take hb))
  have hsize : (Bytes.ofAscii ((text.drop first).take (last - first))).utf8ByteSize =
      last - first := by
    rw [← Bytes.length_utf8, hbytes, List.length_take, List.length_drop]
    omega
  have hblank (style : Style) :
      isBlank ⟨style, Bytes.ofAscii ((text.drop first).take (last - first))⟩ = true := by
    rw [isBlank, hbytes, List.all_eq_true]
    exact fun b hb => htiles.isBlank_of_mem hb
  have hle := htiles.le
  rw [gap_take hlast]
  split
  · rename_i hlt
    refine ⟨?_, ?_, List.forall_mem_singleton.mpr fun _ => rfl, fun start stop => ?_⟩
    · rw [List.map_singleton, List.sum_singleton, hsize]
      omega
    · rw [placed, List.filter_cons_of_neg (by simp [hblank])]
      exact .nil
    · rw [List.map_nil, isGap_nil_iff]
      constructor
      · rintro ⟨rfl, rfl, -⟩
        refine ⟨_, .head _, hblank _, ?_⟩
        rw [hsize]
        omega
      · rintro ⟨part, hmem, -, hstop⟩
        obtain ⟨rfl, rfl⟩ := Prod.mk.inj (List.mem_singleton.mp hmem)
        rw [hsize] at hstop
        omega
  · obtain rfl : last = first := by omega
    exact .nil text last

theorem flatMap_gap {bytes : List UInt8} (h : ∀ b ∈ bytes, b < 128) :
    (gap bytes).flatMap (Bytes.utf8 ·.text) = bytes := by
  cases bytes with
  | nil => rfl
  | cons b rest =>
    show Bytes.utf8 (Bytes.ofAscii (b :: rest)) ++ [] = b :: rest
    rw [List.append_nil, Bytes.utf8_ofAscii h]

/-- A token is cut off with the gap in front of it. -/
theorem exists_cut_cons
    (htiles : Tiles text cursor text.length ((token :: tokens).map Token.span))
    (hmunches : token.Munches text) :
    ∃ style, Styled token.kind style ∧ cut cursor (text.drop cursor) (token :: tokens) =
      gap ((text.drop cursor).take (token.span.start.offset - cursor)) ++
        ⟨style, Bytes.ofAscii (token.span.bytesOf text)⟩ ::
          cut token.span.stop.offset (text.drop token.span.stop.offset) tokens := by
  have hkind : token.kind ≠ .eof := by
    intro heof
    rw [Token.Munches, heof] at hmunches
    exact hmunches
  obtain ⟨style, hstyle⟩ := exists_style hkind
  obtain ⟨hgap, hlt, -⟩ := Tiles.cons_iff.mp htiles
  have hle := hgap.le
  have hbefore : cursor + (token.span.start.offset - cursor) = token.span.start.offset := by omega
  have hbehind : cursor + (token.span.start.offset - cursor +
      (token.span.stop.offset - token.span.start.offset)) = token.span.stop.offset := by omega
  refine ⟨style, styleOf?_eq_some_iff.mp hstyle, ?_⟩
  rw [cut]
  simp only [hstyle, List.drop_drop, hbefore, hbehind, Span.bytesOf, List.drop_take]

theorem utf8_token (hascii : ∀ b ∈ text, b < 128) (span : Span) :
    Bytes.utf8 (Bytes.ofAscii (span.bytesOf text)) = span.bytesOf text :=
  Bytes.utf8_ofAscii fun b hb => hascii b (List.mem_of_mem_take (List.mem_of_mem_drop hb))

/-- **The line is kept.** The parts one after the other are the bytes that are left. -/
theorem flatMap_cut (hascii : ∀ b ∈ text, b < 128)
    (htiles : Tiles text cursor text.length (tokens.map Token.span))
    (hmunches : ∀ t ∈ tokens, t.Munches text) :
    (cut cursor (text.drop cursor) tokens).flatMap (Bytes.utf8 ·.text) = text.drop cursor := by
  induction tokens generalizing cursor with
  | nil => exact flatMap_gap fun b hb => hascii b (List.mem_of_mem_drop hb)
  | cons token tokens ih =>
    obtain ⟨style, -, hcut⟩ := exists_cut_cons htiles (hmunches token (.head _))
    obtain ⟨hgap, hlt, hback⟩ := Tiles.cons_iff.mp htiles
    have hstart : cursor + (token.span.start.offset - cursor) = token.span.start.offset :=
      Nat.add_sub_cancel' hgap.le
    rw [hcut, List.flatMap_append, List.flatMap_cons, ih hback fun t ht => hmunches t (.tail _ ht),
      utf8_token hascii, ← Span.drop_eq hlt.le hback.le,
      flatMap_gap fun b hb => hascii b (List.mem_of_mem_drop (List.mem_of_mem_take hb))]
    conv => rhs; rw [← List.take_append_drop (token.span.start.offset - cursor) (text.drop cursor),
      List.drop_drop, hstart]

theorem ofAscii_ne_empty {bytes : List UInt8} (h : bytes ≠ []) : Bytes.ofAscii bytes ≠ "" := by
  simpa [Bytes.ofAscii] using h

theorem ne_empty_of_mem_gap {bytes : List UInt8} {part : Part} (h : part ∈ gap bytes) :
    part.text ≠ "" := by
  cases bytes with
  | nil => cases h
  | cons b rest =>
    obtain rfl := List.mem_singleton.mp h
    exact ofAscii_ne_empty (List.cons_ne_nil b rest)

/-- No part is empty. -/
theorem ne_empty_of_mem_cut (htiles : Tiles text cursor text.length (tokens.map Token.span))
    (hmunches : ∀ t ∈ tokens, t.Munches text) :
    ∀ part ∈ cut cursor (text.drop cursor) tokens, part.text ≠ "" := by
  induction tokens generalizing cursor with
  | nil => exact fun part hpart => ne_empty_of_mem_gap hpart
  | cons token tokens ih =>
    obtain ⟨style, -, hcut⟩ := exists_cut_cons htiles (hmunches token (.head _))
    obtain ⟨-, -, hback⟩ := Tiles.cons_iff.mp htiles
    obtain ⟨b, body, hbytes, -⟩ := TokenKind.Munches.exists_cons (hmunches token (.head _))
    rw [hcut]
    refine List.forall_mem_append.mpr ⟨fun part hpart => ne_empty_of_mem_gap hpart, ?_⟩
    refine List.forall_mem_cons.mpr ⟨?_, ih hback fun t ht => hmunches t (.tail _ ht)⟩
    rw [hbytes]
    exact ofAscii_ne_empty (List.cons_ne_nil b body)

/-- **The tokens are shown,** and the gaps between them are left plain. -/
theorem colours_cut (hascii : ∀ b ∈ text, b < 128)
    (htiles : Tiles text cursor text.length (tokens.map Token.span))
    (hmunches : ∀ t ∈ tokens, t.Munches text) :
    Colours text cursor text.length tokens (cut cursor (text.drop cursor) tokens) := by
  induction tokens generalizing cursor with
  | nil =>
    rw [cut, gap_drop]
    exact colours_gap hascii htiles (Nat.le_refl _)
  | cons token tokens ih =>
    have htoken := hmunches token (.head _)
    obtain ⟨style, hstyle, hcut⟩ := exists_cut_cons htiles htoken
    obtain ⟨hgap, hlt, hback⟩ := Tiles.cons_iff.mp htiles
    have hstart : token.span.start.offset ≤ text.length :=
      Nat.le_trans (Nat.le_of_lt hlt) hback.le
    rw [hcut]
    exact .append_cons htiles (Nat.le_refl _) htoken (colours_gap hascii hgap hstart)
      ⟨rfl, utf8_token hascii _, hstyle⟩ (ih hback fun t ht => hmunches t (.tail _ ht))

theorem paintGap_eq {line : String} {start stop : Nat} (hascii : ∀ b ∈ Bytes.utf8 line, b < 128)
    (hstop : stop ≤ (Bytes.utf8 line).length) : paintGap line start stop =
      .ok (gap (((Bytes.utf8 line).drop start).take (stop - start))) := by
  rw [paintGap, gap_take hstop]
  split
  · rename_i hlt
    rw [Checked.substring_of_ascii hascii hlt.le hstop]
    rfl
  · rfl

theorem paint_nil_eq {line : String} (hascii : ∀ b ∈ Bytes.utf8 line, b < 128) (eof : Span) :
    paint line cursor [⟨.eof, eof⟩] = .ok (gap ((Bytes.utf8 line).drop cursor)) := by
  rw [gap_drop, ← paintGap_eq hascii (Nat.le_refl _), Bytes.length_utf8]
  rfl

/-- **No cut is refused.** -/
theorem paint_eq {line : String} (hascii : ∀ b ∈ Bytes.utf8 line, b < 128)
    (htiles : Tiles (Bytes.utf8 line) cursor (Bytes.utf8 line).length (tokens.map Token.span))
    (hmunches : ∀ t ∈ tokens, t.Munches (Bytes.utf8 line)) (eof : Span) :
    paint line cursor (tokens ++ [⟨.eof, eof⟩]) =
      .ok (cut cursor ((Bytes.utf8 line).drop cursor) tokens) := by
  induction tokens generalizing cursor with
  | nil => exact paint_nil_eq hascii eof
  | cons token tokens ih =>
    obtain ⟨style, hstyle, hcut⟩ := exists_cut_cons htiles (hmunches token (.head _))
    obtain ⟨-, hlt, hback⟩ := Tiles.cons_iff.mp htiles
    have hstop := hback.le
    have hbehind := ih hback fun t ht => hmunches t (.tail _ ht)
    have htext : Checked.substring line token.span.start.offset token.span.stop.offset =
        .ok (Bytes.ofAscii (token.span.bytesOf (Bytes.utf8 line))) := by
      rw [Checked.substring_of_ascii hascii hlt.le hstop, Span.bytesOf, List.drop_take]
    rw [List.cons_append, paint, styleOf?_eq_some_iff.mpr hstyle, hcut]
    simp only [paintGap_eq hascii (Nat.le_trans hlt.le hstop), htext, hbehind]
    rfl

end Cut

end Part

/-! ## The parts of a line -/

theorem TokenStream.ofString_empty : ofString "" = .ok ⟨[], .point .first⟩ := by
  rw [ofString, show Bytes.utf8 "" = [] from rfl, ofBytes, scan]

theorem highlight_eq_nil_iff {line : String}
    (hjoin : String.join ((highlight line).map Part.text) = line) :
    highlight line = [] ↔ line = "" := by
  constructor
  · intro hnil
    rw [← hjoin, hnil]
    rfl
  · rintro rfl
    rw [highlight, TokenStream.ofString_empty]
    rfl

/-- **Highlighting keeps the text and colours the tokens.** The line is cut only between characters
that are in it, no part is empty, and the parts one after the other are the line. If it tokenizes,
then the parts show its tokens and the gaps around them; if not, then it is one part. -/
theorem highlight_shows_tokens (line : String) :
    highlightByOffset line = .ok (highlight line) ∧ (∀ part ∈ highlight line, part.text ≠ "") ∧
      String.join ((highlight line).map Part.text) = line ∧
      (highlight line = [] ↔ line = "") ∧
      (∀ e, TokenStream.ofString line = .error e → highlight line = [⟨.plain, line⟩]) ∧
      ∀ stream, TokenStream.ofString line = .ok stream →
        Part.Colours (Bytes.utf8 line) 0 (Bytes.utf8 line).length stream.tokens
          (highlight line) := by
  cases hread : TokenStream.ofString line with
  | error e =>
    have hwhole : highlight line = [⟨.plain, line⟩] := by rw [highlight, hread]
    have hoffset : highlightByOffset line = .ok (highlight line) := by
      rw [highlightByOffset, hread, hwhole]
    have hne : ∀ part ∈ highlight line, part.text ≠ "" := by
      rw [hwhole, List.forall_mem_singleton]
      rintro rfl
      rw [TokenStream.ofString_empty] at hread
      cases hread
    have hjoin : String.join ((highlight line).map Part.text) = line := by
      rw [hwhole]
      simp
    exact ⟨hoffset, hne, hjoin, highlight_eq_nil_iff hjoin, fun _ _ => hwhole, nofun⟩
  | ok stream =>
    obtain ⟨hlexed, -⟩ := TokenStream.scan_eq_ok_iff.mp hread
    have hascii := hlexed.ascii
    have htiles := hlexed.tiles [] rfl
    have hmunches := hlexed.munches
    have hcut : highlight line = Part.cut 0 ((Bytes.utf8 line).drop 0) stream.tokens := by
      rw [highlight, hread, List.drop_zero]
    have hoffset : highlightByOffset line = .ok (highlight line) := by
      rw [highlightByOffset, hread, hcut]
      exact Part.paint_eq hascii htiles hmunches stream.eof
    have hjoin : String.join ((highlight line).map Part.text) = line := by
      apply Bytes.utf8_injective
      rw [Bytes.utf8_join, List.flatMap_map, hcut]
      exact Part.flatMap_cut hascii htiles hmunches
    refine ⟨hoffset, hcut ▸ Part.ne_empty_of_mem_cut htiles hmunches, hjoin,
      highlight_eq_nil_iff hjoin, nofun, fun _ h => ?_⟩
    cases h
    exact hcut ▸ Part.colours_cut hascii htiles hmunches

/-- All styles, two blanks between tokens, and one behind the last of them. -/
theorem highlight_shows_tokens_styles :
    highlightByOffset "(print  1 x)\n" = .ok (highlight "(print  1 x)\n") ∧
      highlight "(print  1 x)\n" =
        [⟨.paren, "("⟩, ⟨.keyword, "print"⟩, ⟨.plain, "  "⟩, ⟨.literal, "1"⟩, ⟨.plain, " "⟩,
          ⟨.plain, "x"⟩, ⟨.paren, ")"⟩, ⟨.plain, "\n"⟩] ∧
      ∃ stream, TokenStream.ofString "(print  1 x)\n" = .ok stream ∧ stream.tokens.length = 5 ∧
        Part.Colours (Bytes.utf8 "(print  1 x)\n") 0 13 stream.tokens
          (highlight "(print  1 x)\n") := by
  obtain ⟨hoffset, -, -, -, -, hshows⟩ := highlight_shows_tokens "(print  1 x)\n"
  refine ⟨hoffset, by decide +kernel, ?_⟩
  have hread : ((TokenStream.ofString "(print  1 x)\n").map (·.tokens.length)).toOption =
      some 5 := by
    decide +kernel
  cases hs : TokenStream.ofString "(print  1 x)\n" with
  | error e => rw [hs] at hread; cases hread
  | ok stream =>
    rw [hs] at hread
    exact ⟨stream, rfl, Option.some.inj hread, hshows stream hs⟩

end SnapLisp
