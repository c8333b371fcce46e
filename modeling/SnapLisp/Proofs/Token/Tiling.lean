import SnapLisp.Proofs.Token.Lexemes

/-!
# Spans that leave out only blanks

Spans tile a stretch of a text if they lie in it one after the other, none of them empty, and every
byte of the stretch that is in none of them is a blank. A tiling can be cut at each of its spans
(`Tiles.append_cons_iff`). The tokens of a text tile the whole of it (`Lexed.tiles`).

What spans leave out falls into gaps (`IsGap`). Of a stretch that is tiled the first gap ends at the
first span, if there is a gap in front of it at all, and the others are those of what is behind this
span (`Tiles.isGap_cons_iff`).
-/

namespace SnapLisp

open Alphabet

/-- The spans lie in order and without overlap between the offsets `start` and `stop`, and what they
leave out there is blank. -/
structure Tiles (text : List UInt8) (start stop : Nat) (spans : List Span) : Prop where
  le : start ≤ stop
  inside : ∀ s ∈ spans,
    start ≤ s.start.offset ∧ s.start.offset < s.stop.offset ∧ s.stop.offset ≤ stop
  ordered : spans.Pairwise (·.stop.offset ≤ ·.start.offset)
  blank : ∀ i b, start ≤ i → i < stop → text[i]? = some b →
    (∀ s ∈ spans, i < s.start.offset ∨ s.stop.offset ≤ i) → isBlank b = true

/-- The offsets are the ends of a gap between the spans in a stretch from `first` to `last`: there
is something between them, none of it in a span, and on each side the gap reaches to a span or to
the end of the stretch. -/
structure IsGap (first last : Nat) (spans : List Span) (start stop : Nat) : Prop where
  lt : start < stop
  free : ∀ i, start ≤ i → i < stop → ∀ s ∈ spans, i < s.start.offset ∨ s.stop.offset ≤ i
  left : start = first ∨ ∃ s ∈ spans, s.stop.offset = start
  right : stop = last ∨ ∃ s ∈ spans, s.start.offset = stop

namespace Tiles

variable {text : List UInt8} {start stop : Nat} {s : Span} {front back spans : List Span}

/-- Nothing is left out of nothing. -/
theorem nil (text : List UInt8) (n : Nat) : Tiles text n n [] where
  le := Nat.le_refl n
  inside := by simp
  ordered := .nil
  blank i b hstart hstop := absurd hstop (Nat.not_lt_of_le hstart)

/-- One more blank in front. -/
theorem of_succ {b : UInt8} (h : Tiles text (start + 1) stop spans) (hb : text[start]? = some b)
    (hblank : isBlank b = true) : Tiles text start stop spans where
  le := Nat.le_of_succ_le h.le
  inside s hs := by
    obtain ⟨hle, hmore⟩ := h.inside s hs
    exact ⟨Nat.le_of_succ_le hle, hmore⟩
  ordered := h.ordered
  blank i c hstart hstop hc hout := by
    rcases Nat.eq_or_lt_of_le hstart with rfl | hlt
    · rw [hb] at hc
      cases hc
      exact hblank
    · exact h.blank i c hlt hstop hc hout

/-- **Cutting.** A tiling is one in front of a span and one behind it. -/
theorem append_cons_iff : Tiles text start stop (front ++ s :: back) ↔
    Tiles text start s.start.offset front ∧ s.start.offset < s.stop.offset ∧
      Tiles text s.stop.offset stop back := by
  constructor
  · rintro ⟨hle, hinside, hordered, hblank⟩
    obtain ⟨hfront, hback, hbetween⟩ := List.pairwise_append.mp hordered
    obtain ⟨hbehind, hback⟩ := List.pairwise_cons.mp hback
    obtain ⟨hstart, hlt, hstop⟩ := hinside s (by simp)
    refine ⟨⟨hstart, fun f hf => ?_, hfront, fun i b hi hlt' hb hout => ?_⟩, hlt,
      ⟨hstop, fun f hf => ?_, hback, fun i b hi hlt' hb hout => ?_⟩⟩
    · obtain ⟨hle, hlt, -⟩ := hinside f (by simp [hf])
      exact ⟨hle, hlt, hbetween f hf s (.head _)⟩
    · refine hblank i b hi (by omega) hb fun f hf => ?_
      rcases List.mem_append.mp hf with hf | hf
      · exact hout f hf
      · rcases List.mem_cons.mp hf with rfl | hf
        · exact .inl hlt'
        · have := hbehind f hf
          exact .inl (by omega)
    · obtain ⟨-, hlt, hle⟩ := hinside f (by simp [hf])
      exact ⟨hbehind f hf, hlt, hle⟩
    · refine hblank i b (by omega) hlt' hb fun f hf => ?_
      rcases List.mem_append.mp hf with hf | hf
      · have := hbetween f hf s (.head _)
        exact .inr (by omega)
      · rcases List.mem_cons.mp hf with rfl | hf
        · exact .inr hi
        · exact hout f hf
  · rintro ⟨hfront, hlt, hback⟩
    have hstart := hfront.le
    have hstop := hback.le
    refine ⟨by omega, fun f hf => ?_, ?_, fun i b hi hlt' hb hout => ?_⟩
    · rcases List.mem_append.mp hf with hf | hf
      · obtain ⟨hle, hlt', hle'⟩ := hfront.inside f hf
        exact ⟨hle, hlt', by omega⟩
      · rcases List.mem_cons.mp hf with rfl | hf
        · exact ⟨hstart, hlt, hstop⟩
        · obtain ⟨hle, hlt', hle'⟩ := hback.inside f hf
          exact ⟨by omega, hlt', hle'⟩
    · refine List.pairwise_append.mpr ⟨hfront.ordered, List.pairwise_cons.mpr
        ⟨fun f hf => (hback.inside f hf).1, hback.ordered⟩, fun f hf g hg => ?_⟩
      have hbefore := (hfront.inside f hf).2.2
      rcases List.mem_cons.mp hg with rfl | hg
      · exact hbefore
      · have := (hback.inside g hg).1
        omega
    · rcases hout s (by simp) with hlt'' | hle
      · exact hfront.blank i b hi hlt'' hb fun f hf => hout f (by simp [hf])
      · exact hback.blank i b hle hlt' hb fun f hf => hout f (by simp [hf])

theorem cons_iff : Tiles text start stop (s :: back) ↔
    Tiles text start s.start.offset [] ∧ s.start.offset < s.stop.offset ∧
      Tiles text s.stop.offset stop back := by
  rw [← List.nil_append (s :: back), append_cons_iff]

/-- The first span starts where the blanks end at the latest. -/
theorem start_le {b : UInt8} {i : Nat} (h : Tiles text start stop (s :: back)) (hi : start ≤ i)
    (hb : text[i]? = some b) (hblank : isBlank b = false) :
    s.start.offset ≤ i := by
  by_contra hlt
  have hfront := (cons_iff.mp h).1
  have := hfront.blank i b hi (Nat.lt_of_not_le hlt) hb (by simp)
  rw [hblank] at this
  cases this

/-- Where there is no span all bytes are blank. -/
theorem isBlank_of_mem {b : UInt8} (h : Tiles text start stop [])
    (hb : b ∈ (text.drop start).take (stop - start)) : isBlank b = true := by
  obtain ⟨i, hi, rfl⟩ := List.mem_iff_getElem.mp hb
  rw [List.length_take] at hi
  refine h.blank (start + i) _ (Nat.le_add_right _ _) (by omega) ?_ (by simp)
  rw [List.getElem_take, List.getElem_drop, List.getElem?_eq_getElem]

end Tiles

/-! ## Gaps -/

theorem isGap_nil_iff {first last start stop : Nat} :
    IsGap first last [] start stop ↔ start = first ∧ stop = last ∧ start < stop := by
  constructor
  · rintro ⟨hlt, -, hleft, hright⟩
    exact ⟨by simpa using hleft, by simpa using hright, hlt⟩
  · rintro ⟨hleft, hright, hlt⟩
    exact ⟨hlt, by simp, .inl hleft, .inl hright⟩

section Cons

variable {text : List UInt8} {first last start stop : Nat} {s : Span} {back : List Span}
  (h : Tiles text first last (s :: back))
include h

theorem Tiles.behind : ∀ t ∈ back, s.stop.offset ≤ t.start.offset ∧
    t.start.offset < t.stop.offset := by
  have hback := (cons_iff.mp h).2.2
  exact fun t ht => ⟨(hback.inside t ht).1, (hback.inside t ht).2.1⟩

/-- What is in front of the first span is a gap, if anything is there. -/
theorem Tiles.isGap_front (hlt : first < s.start.offset) :
    IsGap first last (s :: back) first s.start.offset := by
  have hs := (cons_iff.mp h).2.1
  refine ⟨hlt, fun i _ hi t ht => .inl ?_, .inl rfl, .inr ⟨s, .head _, rfl⟩⟩
  rcases List.mem_cons.mp ht with rfl | ht
  · exact hi
  · have := h.behind t ht
    omega

/-- The gaps behind the first span are gaps. -/
theorem Tiles.isGap_cons (hgap : IsGap s.stop.offset last back start stop) :
    IsGap first last (s :: back) start stop := by
  obtain ⟨hlt, hfree, hleft, hright⟩ := hgap
  have hstart : s.stop.offset ≤ start := by
    rcases hleft with heq | ⟨t, ht, heq⟩
    · omega
    · have := h.behind t ht
      omega
  refine ⟨hlt, fun i hi hi' t ht => ?_, .inr ?_, ?_⟩
  · rcases List.mem_cons.mp ht with rfl | ht
    · exact .inr (Nat.le_trans hstart hi)
    · exact hfree i hi hi' t ht
  · rcases hleft with heq | ⟨t, ht, heq⟩
    · exact ⟨s, .head _, heq.symm⟩
    · exact ⟨t, .tail _ ht, heq⟩
  · exact hright.imp_right fun ⟨t, ht, heq⟩ => ⟨t, .tail _ ht, heq⟩

/-- A gap that starts in front of the first span ends there: one that went on would hold the first
byte of the span. -/
theorem Tiles.isGap_eq_front (hgap : IsGap first last (s :: back) start stop)
    (hbefore : start < s.start.offset) : start = first ∧ stop = s.start.offset := by
  obtain ⟨-, hs, hback⟩ := cons_iff.mp h
  have hlast := hback.le
  obtain ⟨hlt, hfree, hleft, hright⟩ := hgap
  have hstop : stop ≤ s.start.offset := by
    by_contra hgt
    have := hfree s.start.offset (Nat.le_of_lt hbefore) (by omega) s (.head _)
    omega
  constructor
  · rcases hleft with heq | ⟨t, ht, heq⟩
    · exact heq
    · rcases List.mem_cons.mp ht with rfl | ht
      · omega
      · have := h.behind t ht
        omega
  · rcases hright with heq | ⟨t, ht, heq⟩
    · omega
    · rcases List.mem_cons.mp ht with rfl | ht
      · exact heq.symm
      · have := h.behind t ht
        omega

/-- Any other gap is one behind the first span. -/
theorem Tiles.isGap_of_cons (hgap : IsGap first last (s :: back) start stop)
    (hafter : s.start.offset ≤ start) : IsGap s.stop.offset last back start stop := by
  obtain ⟨hfront, hs, -⟩ := cons_iff.mp h
  have hfirst := hfront.le
  obtain ⟨hlt, hfree, hleft, hright⟩ := hgap
  have hout := hfree start (Nat.le_refl _) hlt s (.head _)
  refine ⟨hlt, fun i hi hi' t ht => hfree i hi hi' t (.tail _ ht), ?_, ?_⟩
  · rcases hleft with heq | ⟨t, ht, heq⟩
    · omega
    · rcases List.mem_cons.mp ht with rfl | ht
      · exact .inl heq.symm
      · exact .inr ⟨t, ht, heq⟩
  · rcases hright with heq | ⟨t, ht, heq⟩
    · exact .inl heq
    · rcases List.mem_cons.mp ht with rfl | ht
      · omega
      · exact .inr ⟨t, ht, heq⟩

/-- A gap is in front of the first span or behind it. -/
theorem Tiles.isGap_cons_iff : IsGap first last (s :: back) start stop ↔
    (start = first ∧ stop = s.start.offset ∧ start < stop) ∨
      IsGap s.stop.offset last back start stop := by
  constructor
  · intro hgap
    rcases Nat.lt_or_ge start s.start.offset with hbefore | hafter
    · obtain ⟨hstart, hstop⟩ := h.isGap_eq_front hgap hbefore
      exact .inl ⟨hstart, hstop, hgap.lt⟩
    · exact .inr (h.isGap_of_cons hgap hafter)
  · rintro (⟨rfl, rfl, hlt⟩ | hgap)
    · exact h.isGap_front hlt
    · exact h.isGap_cons hgap

end Cons

/-! ## The tokens of a text -/

/-- **Tiling.** The tokens of the rest of a text tile it. -/
theorem Lexed.tiles {place : Position} {text : List UInt8} {tokens : List Token}
    (h : Lexed place text tokens) (front : List UInt8) (hplace : place.offset = front.length) :
    Tiles (front ++ text) front.length (front ++ text).length (tokens.map Token.span) := by
  induction h generalizing front with
  | nil =>
    rw [List.append_nil]
    exact .nil front front.length
  | @blank place b text tokens hb _ ih =>
    have hrest := ih (front ++ [b]) (by simp [hplace])
    rw [List.append_assoc, List.singleton_append, List.length_append, List.length_singleton]
      at hrest
    exact hrest.of_succ (by simp) hb
  | @token place kind lexeme rest tokens hmunches _ _ ih =>
    obtain ⟨b, body, rfl, -⟩ := hmunches.exists_cons
    have hoffset := place.offset_advance (b :: body)
    have hrest := ih (front ++ b :: body) (by rw [hoffset, hplace, List.length_append])
    rw [List.append_assoc, List.length_append] at hrest
    rw [List.map_cons, Tiles.cons_iff, hoffset, hplace]
    exact ⟨.nil _ _, by simp, hrest⟩

end SnapLisp
