import SnapLisp.Form.Basic
import SnapLisp.Proofs.Number.Nearest
import SnapLisp.Proofs.Token.Faults
import SnapLisp.Proofs.Token.MaximalMunch

/-!
# Number literals

A literal is a run of digits where a token starts that the lexer gets to. If its number is too large
the lexer stops there; if not, the lexer makes the nearest double of it and goes on behind it
(`TokenStream.literal_correctly_rounded`). The digits may be any number of digits, and a double is
what their number alone makes it, whatever stands around them and however many zeros in front.

`ReadTo` says how far the lexer is: it holds of an offset and of the tokens made up to there. The
lexer gets to every place where a token starts, if nothing is wrong in front of it
(`exists_readTo`).
-/

namespace SnapLisp

open Alphabet TokenStream

/-- The lexer makes the tokens of the bytes in front of the offset, and goes on with what stands
there: with the rest of the text, with bytes that start alike, or with nothing. -/
def ReadTo (place : Position) (text : List UInt8) (i : Nat) (tokens : List Token) : Prop :=
  ∀ more, (∀ b ∈ more.head?, b ∈ (text.drop i).head?) →
    scan place (text.take i ++ more) =
      (scan (place.advance (text.take i)) more).map (prepend tokens)

/-- All the digits at the start of a token that the lexer gets to. -/
structure Literal (text : List UInt8) (i : Nat) (digits : List UInt8) : Prop where
  boundary : Boundary text i
  reached : FaultlessTo text i
  run : (text.drop i).takeWhile isDigit = digits
  ne_nil : digits ≠ []

/-- The token of a number that takes so many bytes at an offset. -/
def Token.numberAt (text : List UInt8) (i length : Nat) (x : Float) : Token :=
  ⟨.number x, ⟨.inText text i, .inText text (i + length)⟩⟩

/-- The lexer makes one token of the digits at the offset, and it is a number. -/
def ReadAs (text : List UInt8) (i : Nat) (digits : List UInt8) (x : Float) : Prop :=
  ∃ before, ReadTo .first text i before ∧
    ReadTo .first text (i + digits.length) (before ++ [.numberAt text i digits.length x])

/-! ## Getting to an offset -/

/-- A lexeme in front of a text without a fault at its start is a blank or a token. -/
theorem blank_or_munches {lexeme rest : List UInt8} (hmunch : munch (lexeme ++ rest) = lexeme)
    (hne : lexeme ≠ []) (hfree : ∀ expected part, ¬FaultAt (lexeme ++ rest) 0 expected part) :
    (∃ b, lexeme = [b] ∧ isBlank b = true) ∨
      ∃ kind : TokenKind, kind.Munches lexeme rest ∧ kind.Rounds lexeme := by
  obtain ⟨b, body, rfl⟩ := List.exists_cons_of_ne_nil hne
  rw [List.cons_append, munch] at hmunch
  split at hmunch
  · rename_i hb
    have hbody := (List.cons.inj hmunch).2
    have hmunches := munches_symbol hb (body ++ rest)
    rw [dropWhile_of_takeWhile hbody, hbody] at hmunches
    exact .inr ⟨_, hmunches, TokenKind.rounds_of_ne (by simp)⟩
  · rename_i hsymbol
    split at hmunch
    · rename_i hb
      have hbody := (List.cons.inj hmunch).2
      have hrun : ((b :: body ++ rest).drop 0).takeWhile isDigit = b :: body := by
        rw [List.drop_zero, List.cons_append, List.takeWhile_cons_of_pos hb, hbody]
      cases hvalue : Number.nearest? (Number.ofDigits (b :: body)) with
      | none =>
        have hlarge := Number.nearest?_eq_none_iff.mp hvalue
        exact absurd (.tooLarge (.first _) hrun hlarge) (hfree _ _)
      | some value =>
        have hmunches := munches_number hb (body ++ rest) value
        rw [dropWhile_of_takeWhile hbody, hbody] at hmunches
        exact .inr ⟨_, hmunches, TokenKind.rounds_number_iff.mpr hvalue⟩
    · rename_i hdigit
      obtain ⟨-, rfl⟩ := List.cons.inj hmunch
      by_cases hblank : isBlank b = true
      · exact .inl ⟨b, rfl, hblank⟩
      by_cases hleft : b = leftParen
      · exact .inr ⟨.leftParen, congrArg ([·]) hleft, TokenKind.rounds_of_ne (by simp)⟩
      by_cases hright : b = rightParen
      · exact .inr ⟨.rightParen, congrArg ([·]) hright, TokenKind.rounds_of_ne (by simp)⟩
      have hillegal := isLegal_eq_false hblank hleft hright hsymbol hdigit
      exact absurd (.illegal rfl hillegal) (hfree _ _)

namespace ReadTo

variable {place : Position} {lexeme rest text : List UInt8} {i : Nat} {tokens : List Token}

theorem nil (place : Position) (text : List UInt8) : ReadTo place text 0 [] := by
  intro more _
  rw [List.take_zero, List.nil_append, Position.advance_nil, map_prepend_nil]

/-- The tokens of a text start with those made up to an offset. -/
theorem scan_eq (h : ReadTo place text i tokens) : scan place text =
    (scan (place.advance (text.take i)) (text.drop i)).map (prepend tokens) := by
  have hall := h (text.drop i) fun _ hb => hb
  rwa [List.take_append_drop] at hall

theorem head?_take_append {more : List UInt8}
    (h : ∀ b ∈ more.head?, b ∈ (rest.drop i).head?) :
    ∀ b ∈ (rest.take i ++ more).head?, b ∈ rest.head? := by
  cases rest with
  | nil => simpa using h
  | cons c rest =>
    cases i with
    | zero => exact h
    | succ i => exact fun b hb => hb

theorem token {kind : TokenKind} (hmunches : kind.Munches lexeme rest)
    (hvalue : kind.Rounds lexeme) (h : ReadTo (place.advance lexeme) rest i tokens) :
    ReadTo place (lexeme ++ rest) (lexeme.length + i)
      (⟨kind, ⟨place, place.advance lexeme⟩⟩ :: tokens) := by
  intro more hmore
  rw [List.drop_length_add_append] at hmore
  have hown := hmunches.of_head (head?_take_append hmore)
  rw [List.take_length_add_append, List.append_assoc, hown.scan_append hvalue, h more hmore,
    map_cons, map_prepend_append, Position.advance_append]
  rfl

theorem blank {b : UInt8} (hb : isBlank b = true) (h : ReadTo (place.step b) rest i tokens) :
    ReadTo place ([b] ++ rest) ([b].length + i) tokens := by
  intro more hmore
  rw [List.drop_length_add_append] at hmore
  rw [List.take_length_add_append, List.append_assoc, Position.advance_append,
    List.singleton_append, scan_blank hb]
  exact h more hmore

end ReadTo

/-- **Getting to a token.** The lexer gets to the places where tokens start, as long as nothing is
wrong. -/
theorem exists_readTo {text : List UInt8} {i : Nat} (h : Boundary text i)
    (hfree : FaultlessTo text i) (place : Position) : ∃ tokens, ReadTo place text i tokens := by
  induction h generalizing place with
  | first text => exact ⟨[], .nil place text⟩
  | @behind lexeme rest i hmunch _ ih =>
    by_cases hne : lexeme = []
    · subst hne
      rw [List.nil_append, List.length_nil, Nat.zero_add] at hfree ⊢
      exact ih hfree place
    have hpos : 0 < lexeme.length := List.length_pos_of_ne_nil hne
    have hstart := blank_or_munches hmunch hne (hfree 0 (by omega))
    -- the faults of the rest are faults of the text
    have hrest (hlegal : ∀ b ∈ lexeme, isLegal b = true)
        (hsmall : ¬Number.TooLarge (Number.ofDigits ((lexeme ++ rest).takeWhile isDigit))) :
        FaultlessTo rest i := by
      intro j hj expected part hfault
      exact hfree (lexeme.length + j) (by omega) expected part
        ((faultAt_append_iff hmunch hlegal hsmall).mpr ⟨j, rfl, hfault⟩)
    rcases hstart with ⟨b, rfl, hb⟩ | ⟨kind, hmunches, hvalue⟩
    · have hbehind := hrest (List.forall_mem_singleton.mpr (isLegal_of_isBlank hb))
        (not_tooLarge_of_isBlank hb rest)
      obtain ⟨tokens, htokens⟩ := ih hbehind (place.step b)
      exact ⟨tokens, htokens.blank hb⟩
    · have hbehind := hrest hmunches.isLegal (hmunches.not_tooLarge hvalue)
      obtain ⟨tokens, htokens⟩ := ih hbehind (place.advance lexeme)
      exact ⟨_, htokens.token hmunches hvalue⟩

/-- Legal bytes are no fault, as long as numbers have at most 53 bits. -/
theorem faultlessTo_of_le {text : List UInt8} {i : Nat}
    (hlegal : ∀ b ∈ text.take i, isLegal b = true)
    (hle : ∀ j < i, Number.ofDigits ((text.drop j).takeWhile isDigit) ≤ 2 ^ 53) :
    FaultlessTo text i := by
  intro j hj expected part hfault
  cases hfault with
  | @illegal b hb hillegal =>
    have hmem : b ∈ text.take i := List.mem_of_getElem? ((List.getElem?_take_of_lt hj).trans hb)
    rw [hlegal b hmem] at hillegal
    cases hillegal
  | tooLarge _ hdigits hlarge =>
    rw [← hdigits] at hlarge
    exact Number.not_tooLarge_of_le (hle j hj) hlarge

/-! ## Literals -/

/-- A number that is read is among the tokens of the text. -/
theorem ReadAs.mem_tokens {text digits : List UInt8} {i : Nat} {x : Float} {s : TokenStream}
    (h : ReadAs text i digits x) (hs : ofBytes text = .ok s) :
    Token.numberAt text i digits.length x ∈ s.tokens := by
  obtain ⟨before, -, hbehind⟩ := h
  have hall := hbehind.scan_eq
  rw [← ofBytes, hs] at hall
  cases hrest : scan (Position.first.advance (text.take (i + digits.length)))
      (text.drop (i + digits.length)) with
  | error e =>
    rw [hrest] at hall
    cases hall
  | ok s' =>
    rw [hrest] at hall
    cases hall
    simp [prepend]

namespace Literal

variable {text digits : List UInt8} {i : Nat} {x : Float} {before : List Token}

theorem digit (h : Literal text i digits) : ∀ b ∈ digits, isDigit b = true := by
  rw [← h.run]
  exact List.all_eq_true.mp List.all_takeWhile

theorem exists_rest (h : Literal text i digits) :
    ∃ rest, text.drop i = digits ++ rest ∧ ∀ b ∈ rest.head?, isDigit b = false := by
  refine ⟨(text.drop i).dropWhile isDigit, ?_, head?_dropWhile_stop _ _⟩
  rw [← h.run, List.takeWhile_append_dropWhile]

theorem length_le (h : Literal text i digits) : i + digits.length ≤ text.length := by
  obtain ⟨rest, hdrop, -⟩ := h.exists_rest
  have hlength := congrArg List.length hdrop
  have hpos : 0 < digits.length := List.length_pos_of_ne_nil h.ne_nil
  rw [List.length_drop, List.length_append] at hlength
  omega

theorem take_eq (h : Literal text i digits) :
    text.take (i + digits.length) = text.take i ++ digits := by
  obtain ⟨rest, hdrop, -⟩ := h.exists_rest
  rw [List.take_add, hdrop, List.take_left]

/-- The lexer gets behind a literal that is not too large. -/
theorem readAs (h : Literal text i digits)
    (hvalue : Number.nearest? (Number.ofDigits digits) = some x) : ReadAs text i digits x := by
  obtain ⟨rest, hdrop, hstop⟩ := h.exists_rest
  obtain ⟨before, hbefore⟩ := exists_readTo h.boundary h.reached .first
  have hle := h.length_le
  have hplace := Position.advance_take (Nat.le_of_add_right_le hle)
  have hplace' := Position.advance_take hle
  have hown : (TokenKind.number x).Munches digits rest := ⟨h.ne_nil, h.digit, hstop⟩
  refine ⟨before, hbefore, fun more hmore => ?_⟩
  rw [← List.drop_drop, hdrop, List.drop_left] at hmore
  have hmunches := hown.of_head hmore
  have hhead : ∀ b ∈ (digits ++ more).head?, b ∈ (text.drop i).head? := by
    rw [hdrop]
    cases digits with
    | nil => exact absurd rfl h.ne_nil
    | cons d body => exact fun b hb => hb
  rw [h.take_eq, Position.advance_append, hplace] at hplace'
  rw [h.take_eq, List.append_assoc, hbefore _ hhead,
    hmunches.scan_append (TokenKind.rounds_number_iff.mpr hvalue), map_cons, map_prepend_append,
    Position.advance_append, hplace, hplace']
  rfl

/-- A literal that is read is not too large, and its digits make the double what it is. -/
theorem nearest?_of_readAs (h : Literal text i digits) (hread : ReadAs text i digits x) :
    Number.nearest? (Number.ofDigits digits) = some x := by
  obtain ⟨before, -, hbehind⟩ := hread
  have hown := hbehind [] (by simp)
  rw [List.append_nil, scan] at hown
  have hbytes : (Token.numberAt text i digits.length x).span.bytesOf
      (text.take (i + digits.length)) = digits := by
    show ((text.take (i + digits.length)).take (i + digits.length)).drop i = digits
    rw [List.take_take, Nat.min_self, h.take_eq, List.drop_left' (List.length_take_of_le ?_)]
    exact Nat.le_of_add_right_le h.length_le
  have hlexed : Lexed .first (text.take (i + digits.length))
      (before ++ [.numberAt text i digits.length x] ++ []) := lexed_of_scan hown
  have hvalue := (hlexed.exact (.numberAt text i digits.length x) (by simp)).2 x rfl
  rwa [hbytes] at hvalue

/-- A literal that is too large stops the lexer at its first digit. -/
theorem ofBytes_eq_error (h : Literal text i digits)
    (hlarge : Number.TooLarge (Number.ofDigits digits)) :
    ofBytes text = .error (.malformed expectedFinite (.inText text i)) := by
  obtain ⟨rest, hdrop, hstop⟩ := h.exists_rest
  obtain ⟨before, hbefore⟩ := exists_readTo h.boundary h.reached .first
  have hplace := Position.advance_take (Nat.le_of_add_right_le h.length_le)
  have hall := hbefore.scan_eq
  obtain ⟨d, body, rfl⟩ := List.exists_cons_of_ne_nil h.ne_nil
  have hrun := h.run
  rw [hdrop, List.cons_append, List.takeWhile_cons_of_pos (h.digit d (.head _))] at hrun
  have hstops : scan (Position.inText text i) (d :: (body ++ rest)) =
      .error (.malformed expectedFinite (.inText text i)) :=
    scan_isDigit_of_none (h.digit d (.head _)) (Number.nearest?_eq_none_iff.mpr (by rwa [hrun]))
  rw [hdrop, hplace, List.cons_append, hstops] at hall
  exact hall

end Literal

namespace TokenStream

variable {text digits : List UInt8} {i : Nat}

/-- The text of a number that was read is one token, and it is that number again. -/
theorem reads_back_number {n : Nat} {x : Float} (h : Number.nearest? n = some x) (span : Span) :
    ∃ s, ofString (Form.number x span).text = .ok s ∧ s.tokens.map Token.kind = [.number x] := by
  obtain ⟨s, hs, hkinds⟩ := (Spells.number (Number.whole_of_nearest? h)).ofBytes
  refine ⟨s, ?_, hkinds⟩
  rw [Form.text]
  exact hs

/-- **Literals are rounded correctly.** A literal of `2 ^ 1024 - 2 ^ 970` or more is an error at its
first digit. Any other one is a number: the one double with a clear sign bit that is nearest, with
an even significand where two are. It is exact up to `2 ^ 53`, and its text reads back as the same
double. Of two literals the one with the larger number is not the smaller double, and literals of
the same number are the same double. -/
theorem literal_correctly_rounded (h : Literal text i digits) :
    (Number.TooLarge (Number.ofDigits digits) →
      ofBytes text = .error (.malformed expectedFinite (.inText text i))) ∧
    (¬Number.TooLarge (Number.ofDigits digits) → ∃ x, ReadAs text i digits x) ∧
    (Number.ofDigits digits ≤ 2 ^ 53 →
      ∃ x, ReadAs text i digits x ∧ Number.value x = Number.ofDigits digits) ∧
    ∀ x, ReadAs text i digits x →
      (∀ s, ofBytes text = .ok s → .numberAt text i digits.length x ∈ s.tokens) ∧
      Number.isNegative x = false ∧ Number.NearestEven (Number.ofDigits digits) x ∧
      (∀ y, Number.isNegative y = false → Number.NearestEven (Number.ofDigits digits) y → y = x) ∧
      (∀ span, ∃ s, ofString (Form.number x span).text = .ok s ∧
        s.tokens.map Token.kind = [.number x]) ∧
      ∀ text' i' digits' y, Literal text' i' digits' → ReadAs text' i' digits' y →
        Number.ofDigits digits ≤ Number.ofDigits digits' → Number.value x ≤ Number.value y ∧
          (Number.ofDigits digits = Number.ofDigits digits' → x = y) := by
  have hsmall : ¬Number.TooLarge (Number.ofDigits digits) →
      ∃ x, Number.nearest? (Number.ofDigits digits) = some x := by
    intro hsmall
    exact Option.ne_none_iff_exists'.mp fun hnone =>
      hsmall (Number.nearest?_eq_none_iff.mp hnone)
  refine ⟨h.ofBytes_eq_error, fun hlarge => ?_, fun hle => ?_, fun x hread => ?_⟩
  · obtain ⟨x, hx⟩ := hsmall hlarge
    exact ⟨x, h.readAs hx⟩
  · obtain ⟨x, hx⟩ := hsmall (Number.not_tooLarge_of_le hle)
    exact ⟨x, h.readAs hx, Number.value_of_nearest? hx hle⟩
  · have hx := h.nearest?_of_readAs hread
    obtain ⟨hsign, hnearest, hunique⟩ := Number.nearestEven_of_nearest? hx
    refine ⟨fun s hs => hread.mem_tokens hs, hsign, hnearest, hunique, reads_back_number hx, ?_⟩
    intro text' i' digits' y h' hread' hle
    have hy := h'.nearest?_of_readAs hread'
    refine ⟨Number.value_le_of_nearest? hx hy hle, fun hsame => ?_⟩
    rw [hsame, hy] at hx
    exact (Option.some.inj hx).symm

/-- Zeros in front, and a number halfway between two doubles. -/
theorem literal_correctly_rounded_tie :
    let text := Bytes.utf8 "(+ 007 9007199254740993)"
    ∃ x y, ReadAs text 3 (Bytes.utf8 "007") x ∧ Number.value x = 7 ∧
      ReadAs text 7 (Bytes.utf8 "9007199254740993") y ∧ Number.NearestEven 9007199254740993 y ∧
        Number.value x ≤ Number.value y := by
  intro text
  have hlegal : ∀ b ∈ text.take 7, isLegal b = true := by decide +kernel
  have hle : ∀ j < 7, Number.ofDigits ((text.drop j).takeWhile isDigit) ≤ 2 ^ 53 := by
    decide +kernel
  have hsplit : text = [40] ++ ([43] ++ ([32] ++ (Bytes.utf8 "007" ++ ([32] ++
      (Bytes.utf8 "9007199254740993" ++ [41]))))) := by
    decide +kernel
  have hseven : Literal text 3 (Bytes.utf8 "007") := by
    refine ⟨?_, ?_, by decide +kernel, by decide +kernel⟩
    · rw [hsplit]
      exact .behind rfl (.behind rfl (.behind rfl (.first _)))
    · have hfront : ∀ b ∈ text.take 3, b ∈ text.take 7 :=
        fun b hb => List.take_subset_take_left text (by decide) hb
      exact faultlessTo_of_le (fun b hb => hlegal b (hfront b hb))
        fun j hj => hle j (Nat.lt_trans hj (by decide))
  have htie : Literal text 7 (Bytes.utf8 "9007199254740993") := by
    refine ⟨?_, faultlessTo_of_le hlegal hle, by decide +kernel, by decide +kernel⟩
    rw [hsplit]
    exact .behind rfl (.behind rfl (.behind rfl (.behind rfl (.behind rfl (.first _)))))
  have hsmall : ¬Number.TooLarge (Number.ofDigits (Bytes.utf8 "9007199254740993")) := by
    have hsome : (Number.nearest? (Number.ofDigits (Bytes.utf8 "9007199254740993"))).isSome := by
      decide +kernel
    rw [← Number.nearest?_eq_none_iff]
    intro hnone
    rw [hnone] at hsome
    cases hsome
  have hdigits : Number.ofDigits (Bytes.utf8 "007") = 7 := by decide +kernel
  have hdigits' : Number.ofDigits (Bytes.utf8 "9007199254740993") = 9007199254740993 := by
    decide +kernel
  obtain ⟨-, -, hexact, hfirst⟩ := literal_correctly_rounded hseven
  obtain ⟨-, hreads, -, hsecond⟩ := literal_correctly_rounded htie
  obtain ⟨x, hx, hvalue⟩ := hexact (by rw [hdigits]; decide)
  obtain ⟨y, hy⟩ := hreads hsmall
  have hnearest := (hsecond y hy).2.2.1
  rw [hdigits] at hvalue
  rw [hdigits'] at hnearest
  refine ⟨x, y, hx, by simpa using hvalue, hy, by simpa using hnearest, ?_⟩
  obtain ⟨-, -, -, -, -, hmono⟩ := hfirst x hx
  exact (hmono text 7 _ y htie hy (by rw [hdigits, hdigits']; decide)).1

end TokenStream

end SnapLisp
