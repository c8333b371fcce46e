import Mathlib.Data.List.Forall2
import SnapLisp.Proofs.Token.Places
import SnapLisp.Proofs.Token.Tiling

/-!
# Maximal munch

`TakesApart text tokens` says in terms of offsets alone what it is to take a text apart: the tokens
but the last one tile the text and take what they can of it, and the last one is the end of the
input. The lexer takes every text apart on which it succeeds, and there is no other way to do so
(`TokenStream.ofBytes_takesApart`). The offsets leave open where the lines are and what the value of
a number is; `Token.Exact` says this of a token.
-/

namespace SnapLisp

open Alphabet

/-- The bytes in the range of the token are those that such a token takes there. -/
def Token.Munches (text : List UInt8) (t : Token) : Prop :=
  t.kind.Munches (t.span.bytesOf text) (text.drop t.span.stop.offset)

/-- The tokens are those of a text: they take what they can and leave out blanks only, and the end
of the input is behind them. -/
def TakesApart (text : List UInt8) (tokens : List Token) : Prop :=
  ∃ lexemes eof, tokens = lexemes ++ [⟨.eof, eof⟩] ∧
    eof.start.offset = text.length ∧ eof.stop.offset = text.length ∧
      Tiles text 0 text.length (lexemes.map Token.span) ∧ ∀ t ∈ lexemes, t.Munches text

/-- The same token, up to the value of a number and to lines and columns. -/
def Token.Alike (t u : Token) : Prop :=
  t.kind.Alike u.kind ∧ t.span.start.offset = u.span.start.offset ∧
    t.span.stop.offset = u.span.stop.offset

/-- The token has the lines and columns of its offsets, and its number is what its digits round
to. -/
def Token.Exact (text : List UInt8) (t : Token) : Prop :=
  t.span = ⟨.inText text t.span.start.offset, .inText text t.span.stop.offset⟩ ∧
    t.kind.Rounds (t.span.bytesOf text)

/-! ## One token -/

namespace Token

variable {text : List UInt8} {t u : Token}

/-- Where a token starts there is a byte that can start it. -/
theorem Munches.exists_getElem? (h : t.Munches text) :
    ∃ b, text[t.span.start.offset]? = some b ∧ t.kind.StartsWith b := by
  obtain ⟨b, body, hbytes, hb⟩ := TokenKind.Munches.exists_cons h
  exact ⟨b, Span.getElem?_of_bytesOf hbytes, hb⟩

/-- Two tokens that start in the same place are alike. -/
theorem Munches.alike (h : t.Munches text) (h' : u.Munches text)
    (hstart : t.span.start.offset = u.span.start.offset)
    (hle : t.span.start.offset ≤ t.span.stop.offset) (hstop : t.span.stop.offset ≤ text.length)
    (hle' : u.span.start.offset ≤ u.span.stop.offset) (hstop' : u.span.stop.offset ≤ text.length) :
    t.Alike u := by
  have hbytes : t.span.bytesOf text = u.span.bytesOf text := by
    rw [← TokenKind.Munches.munch_eq h, ← TokenKind.Munches.munch_eq h', ← Span.drop_eq hle hstop,
      ← Span.drop_eq hle' hstop', hstart]
  have hlength := Span.length_bytesOf hstop
  rw [hbytes, Span.length_bytesOf hstop'] at hlength
  rw [Munches, hbytes] at h
  exact ⟨h.alike h', hstart, by omega⟩

theorem Alike.eq_of_exact (h : t.Alike u) (ht : t.Exact text) (hu : u.Exact text) : t = u := by
  obtain ⟨hkind, hstart, hstop⟩ := h
  obtain ⟨htspan, htvalue⟩ := ht
  obtain ⟨huspan, huvalue⟩ := hu
  have hspan : t.span = u.span := by rw [htspan, huspan, hstart, hstop]
  rw [hspan] at htvalue
  have hsame := hkind.eq_of_rounds htvalue huvalue
  cases t
  cases u
  cases hspan
  cases hsame
  rfl

end Token

/-! ## There is one way to take a text apart -/

section Unique

variable {text : List UInt8} {start : Nat} {lexemes lexemes' : List Token} {t : Token}

/-- Blanks are not tiled by a token. -/
theorem not_tiles_nil_of_tiles_cons (h : Tiles text start text.length [])
    (h' : Tiles text start text.length (t.span :: lexemes.map Token.span)) :
    ¬t.Munches text := by
  intro ht
  obtain ⟨b, hb, hstarts⟩ := ht.exists_getElem?
  obtain ⟨hle, hlt, hstop⟩ := h'.inside t.span (.head _)
  have := h.blank _ b hle (Nat.lt_of_lt_of_le hlt hstop) hb (by simp)
  rw [hstarts.isBlank_eq_false] at this
  cases this

theorem alike_of_tiles (h : Tiles text start text.length (lexemes.map Token.span))
    (hmunches : ∀ t ∈ lexemes, t.Munches text)
    (h' : Tiles text start text.length (lexemes'.map Token.span))
    (hmunches' : ∀ t ∈ lexemes', t.Munches text) : List.Forall₂ Token.Alike lexemes lexemes' := by
  induction lexemes generalizing start lexemes' with
  | nil =>
    cases lexemes' with
    | nil => exact .nil
    | cons u lexemes' => exact absurd (hmunches' u (.head _)) (not_tiles_nil_of_tiles_cons h h')
  | cons t lexemes ih =>
    cases lexemes' with
    | nil => exact absurd (hmunches t (.head _)) (not_tiles_nil_of_tiles_cons h' h)
    | cons u lexemes' =>
      have ht := hmunches t (.head _)
      have hu := hmunches' u (.head _)
      obtain ⟨hstart, hlt, hstop⟩ := h.inside t.span (.head _)
      obtain ⟨hstart', hlt', hstop'⟩ := h'.inside u.span (.head _)
      -- neither of the two first tokens can start before the other one
      have hsame : t.span.start.offset = u.span.start.offset := by
        obtain ⟨b, hb, hstarts⟩ := ht.exists_getElem?
        obtain ⟨b', hb', hstarts'⟩ := hu.exists_getElem?
        exact Nat.le_antisymm (h.start_le hstart' hb' hstarts'.isBlank_eq_false)
          (h'.start_le hstart hb hstarts.isBlank_eq_false)
      have halike := ht.alike hu hsame hlt.le hstop hlt'.le hstop'
      have hback := (Tiles.cons_iff.mp h).2.2
      have hback' := (Tiles.cons_iff.mp h').2.2
      rw [← halike.2.2] at hback'
      exact .cons halike (ih hback (fun t ht => hmunches t (.tail _ ht)) hback'
        fun t ht => hmunches' t (.tail _ ht))

theorem TakesApart.unique {tokens tokens' : List Token} (h : TakesApart text tokens)
    (h' : TakesApart text tokens') : List.Forall₂ Token.Alike tokens tokens' := by
  obtain ⟨lexemes, eof, rfl, hstart, hstop, htiles, hmunches⟩ := h
  obtain ⟨lexemes', eof', rfl, hstart', hstop', htiles', hmunches'⟩ := h'
  have heof : Token.Alike ⟨.eof, eof⟩ ⟨.eof, eof'⟩ :=
    ⟨rfl, hstart.trans hstart'.symm, hstop.trans hstop'.symm⟩
  exact List.rel_append (alike_of_tiles htiles hmunches htiles' hmunches') (.cons heof .nil)

end Unique

/-! ## The lexer takes texts apart -/

namespace Lexed

variable {text : List UInt8} {tokens : List Token}

theorem munches (h : Lexed .first text tokens) : ∀ t ∈ tokens, t.Munches text := by
  intro t ht
  obtain ⟨before, lexeme, rest, rfl, hspan, hmunches, -⟩ := h.exists_of_mem ht
  have hcovers : t.span.Covers .first (before ++ (lexeme ++ rest)) lexeme :=
    ⟨before, rest, by simp, hspan⟩
  have hrest : (before ++ (lexeme ++ rest)).drop t.span.stop.offset = rest := by
    rw [hspan, ← List.append_assoc, Position.offset_advance_first, List.drop_left]
  rw [Token.Munches, hcovers.bytesOf_eq, hrest]
  exact hmunches

theorem exact (h : Lexed .first text tokens) : ∀ t ∈ tokens, t.Exact text := by
  intro t ht
  obtain ⟨before, lexeme, rest, rfl, hspan, -, hvalue⟩ := h.exists_of_mem ht
  have hcovers : t.span.Covers .first (before ++ (lexeme ++ rest)) lexeme :=
    ⟨before, rest, by simp, hspan⟩
  refine ⟨?_, by rwa [hcovers.bytesOf_eq]⟩
  rw [hspan, Position.offset_advance_first, Position.offset_advance_first, Position.inText_append,
    ← List.append_assoc, Position.inText_append]

end Lexed

namespace TokenStream

variable {text : List UInt8} {s : TokenStream}

theorem takesApart_of_ofBytes (h : ofBytes text = .ok s) : TakesApart text s.toList := by
  obtain ⟨hlexed, heof⟩ := scan_eq_ok_iff.mp h
  refine ⟨s.tokens, s.eof, rfl, ?_, ?_, hlexed.tiles [] rfl, hlexed.munches⟩
  · rw [heof, Span.point, Position.offset_advance_first]
  · rw [heof, Span.point, Position.offset_advance_first]

theorem exact_of_ofBytes (h : ofBytes text = .ok s) : ∀ t ∈ s.toList, t.Exact text := by
  obtain ⟨hlexed, heof⟩ := scan_eq_ok_iff.mp h
  refine List.forall_mem_append.mpr ⟨hlexed.exact, List.forall_mem_singleton.mpr ⟨?_, nofun⟩⟩
  rw [heof, Span.point, Position.offset_advance_first, Position.advance_first]

/-- **Maximal munch.** Where the lexer succeeds, its tokens take the text apart, each with the lines
and columns of its offsets and the value of its digits. Any tokens that take the text apart are
alike, and those that are as exact are the same. -/
theorem ofBytes_takesApart (h : ofBytes text = .ok s) :
    TakesApart text s.toList ∧ (∀ t ∈ s.toList, t.Exact text) ∧
      ∀ tokens, TakesApart text tokens → List.Forall₂ Token.Alike tokens s.toList ∧
        ((∀ t ∈ tokens, t.Exact text) → tokens = s.toList) := by
  have hapart := takesApart_of_ofBytes h
  have hexact := exact_of_ofBytes h
  refine ⟨hapart, hexact, fun tokens htokens => ⟨htokens.unique hapart, fun hexact' => ?_⟩⟩
  have hpairs := List.forall₂_iff_get.mp (htokens.unique hapart)
  refine List.ext_get hpairs.1 fun i hi hi' => ?_
  exact (hpairs.2 i hi hi').eq_of_exact (hexact' _ (List.get_mem _ _)) (hexact _ (List.get_mem _ _))

/-- Digits in front of letters, and an operator in front of digits. -/
theorem ofBytes_takesApart_dense :
    ∃ s, ofBytes (Bytes.utf8 "(12ab\n -5)") = .ok s ∧ s.tokens.length = 5 ∧
      TakesApart (Bytes.utf8 "(12ab\n -5)") s.toList ∧
        ∀ tokens, TakesApart (Bytes.utf8 "(12ab\n -5)") tokens →
          List.Forall₂ Token.Alike tokens s.toList := by
  have hread : ((ofBytes (Bytes.utf8 "(12ab\n -5)")).map (·.tokens.length)).toOption = some 5 := by
    decide +kernel
  cases hs : ofBytes (Bytes.utf8 "(12ab\n -5)") with
  | error e => rw [hs] at hread; cases hread
  | ok s =>
    rw [hs] at hread
    obtain ⟨hapart, -, hunique⟩ := ofBytes_takesApart hs
    exact ⟨s, rfl, Option.some.inj hread, hapart, fun tokens h => (hunique tokens h).1⟩

end TokenStream

end SnapLisp
