import SnapLisp.Proofs.Token.Lexemes

/-!
# One text under another

A text that stands on the lines below another one has the same tokens, each moved by the length of
what stands above (`TokenStream.scan_below`). No token runs over the blank between the two texts,
so the tokens of both together are those of the one followed by those of the other
(`TokenStream.ofBytes_under`).
-/

namespace SnapLisp

/-! ## Places below a text -/

/-- Where a place of a text is if the text starts on the line below other bytes. -/
def Position.below (above : List UInt8) (p : Position) : Position :=
  ⟨p.offset + (above.length + 1), p.line + (above.count lineFeed + 1), p.column⟩

/-- Where a range of a text is if the text starts on the line below other bytes. -/
def Span.below (above : List UInt8) (s : Span) : Span := ⟨s.start.below above, s.stop.below above⟩

/-- A token of a text that starts on the line below other bytes. -/
def Token.below (above : List UInt8) (t : Token) : Token := ⟨t.kind, t.span.below above⟩

/-- The tokens of a text that starts on the line below other bytes. -/
def TokenStream.below (above : List UInt8) (s : TokenStream) : TokenStream :=
  ⟨s.tokens.map (Token.below above), s.eof.below above⟩

variable {above : List UInt8}

namespace Position

/-- Standing below a text is a shift of all places. -/
theorem shift_below (above : List UInt8) : Shift (fun _ => True) (below above) where
  step _ _ := trivial
  shift_step {p} b _ := by
    unfold step below
    split
    · simp only [mk.injEq, and_true]
      omega
    · simp only [mk.injEq, and_self, and_true]
      omega

theorem line_advance (p : Position) (bytes : List UInt8) :
    (p.advance bytes).line = p.line + bytes.count lineFeed := by
  induction bytes generalizing p with
  | nil => rfl
  | cons b rest ih =>
    rw [advance_cons, ih, List.count_cons, step]
    by_cases hb : b = lineFeed
    · simp only [hb, if_true, beq_self_eq_true]
      omega
    · simp [hb]

/-- Behind the bytes and a line feed a text starts as on a line of its own. -/
theorem step_advance_first (above : List UInt8) :
    (first.advance above).step lineFeed = first.below above := by
  have hoffset := offset_advance first above
  have hline := line_advance first above
  simp only [step, if_true, below, hoffset, hline]
  simp [first, Nat.add_comm, Nat.add_left_comm]

end Position

namespace TokenStream

/-- A text that is moved down is read as before. -/
theorem scan_below {place : Position} {bytes : List UInt8} {s : TokenStream}
    (h : scan place bytes = .ok s) : scan (place.below above) bytes = .ok (s.below above) := by
  obtain ⟨hlexed, heof⟩ := scan_eq_ok_iff.mp h
  have hshift := Position.shift_below above
  refine scan_eq_ok_iff.mpr ⟨hlexed.shifted hshift trivial, ?_⟩
  rw [← hshift.shift_advance trivial, below, heof]
  rfl

/-- **Seam.** The tokens of two texts, one under the other. -/
theorem ofBytes_under {above bytes : List UInt8} {s s' : TokenStream} (hs : ofBytes above = .ok s)
    (hs' : ofBytes bytes = .ok s') :
    ofBytes (above ++ Position.lineFeed :: bytes) =
      .ok ((s'.below above).prepend s.tokens) := by
  have hblank : Alphabet.isBlank Position.lineFeed = true := rfl
  have hmoved : scan (Position.first.below above) bytes = .ok (s'.below above) := scan_below hs'
  rw [← Position.step_advance_first] at hmoved
  obtain ⟨hbelow, heof⟩ := scan_eq_ok_iff.mp hmoved
  refine scan_eq_ok_iff.mpr ⟨(lexed_of_scan hs).append_blank hblank hbelow, ?_⟩
  rw [Position.advance_append, Position.advance_cons, prepend, heof]

end TokenStream

end SnapLisp
