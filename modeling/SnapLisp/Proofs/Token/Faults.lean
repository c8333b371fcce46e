import SnapLisp.Form.Parser
import SnapLisp.Proofs.Number.Overflow
import SnapLisp.Proofs.Token.Lexemes

/-!
# The first fault of a text

Two things can be wrong with a text for the lexer (`FaultAt`): a byte that may not stand in a script
at all, wherever it is, and a token of digits whose number is too large. Where a token starts is
said by `Boundary`, which takes the text apart from the left: digits behind a letter belong to a
symbol and are no number.

The lexer fails on the texts with a fault, and it reports the first one, whatever follows it
(`TokenStream.ofBytes_first_fault`). The proof goes along the text: a lexeme in front moves the
faults behind it and is none itself (`faultAt_append_iff`).
-/

namespace SnapLisp

open Alphabet

/-- A byte that may stand in a script: a blank, a parenthesis, a letter, a digit, `_`, `+`, `-`, `*`
or `/`. -/
def Alphabet.isLegal (b : UInt8) : Bool :=
  isBlank b || b = leftParen || b = rightParen || isLetter b || isDigit b ||
    b = 95 || b = 43 || b = 45 || b = 42 || b = 47

/-- The offset is reached by taking tokens, or single bytes where no token starts, from the left. -/
inductive Boundary : List UInt8 → Nat → Prop where
  | first (text : List UInt8) : Boundary text 0
  | behind {lexeme rest : List UInt8} {i : Nat} :
      munch (lexeme ++ rest) = lexeme → Boundary rest i →
        Boundary (lexeme ++ rest) (lexeme.length + i)

/-- What is wrong at an offset: what is wanted there instead, and the bytes that are to blame. -/
inductive FaultAt (text : List UInt8) (i : Nat) : String → List UInt8 → Prop where
  | illegal {b : UInt8} : text[i]? = some b → isLegal b = false →
      FaultAt text i TokenStream.expectedToken [b]
  | tooLarge {digits : List UInt8} : Boundary text i → (text.drop i).takeWhile isDigit = digits →
      Number.TooLarge (Number.ofDigits digits) →
        FaultAt text i TokenStream.expectedFinite digits

/-- Nothing is wrong in front of the offset. -/
def FaultlessTo (text : List UInt8) (i : Nat) : Prop :=
  ∀ j < i, ∀ expected part, ¬FaultAt text j expected part

/-! ## Legal bytes -/

theorem isLegal_of_isBlank {b : UInt8} (h : isBlank b = true) : isLegal b = true := by
  simp [isLegal, h]

theorem isLegal_of_startsSymbol {b : UInt8} (h : startsSymbol b = true) : isLegal b = true := by
  grind [isLegal, startsSymbol]

theorem isLegal_of_continuesSymbol {b : UInt8} (h : continuesSymbol b = true) :
    isLegal b = true := by
  grind [isLegal, continuesSymbol]

theorem isLegal_eq_false {b : UInt8} (hblank : ¬isBlank b = true) (hleft : b ≠ leftParen)
    (hright : b ≠ rightParen) (hsymbol : ¬startsSymbol b = true) (hdigit : ¬isDigit b = true) :
    isLegal b = false := by
  grind [isLegal, startsSymbol]

theorem TokenKind.Munches.isLegal {kind : TokenKind} {lexeme rest : List UInt8}
    (h : kind.Munches lexeme rest) : ∀ b ∈ lexeme, isLegal b = true := by
  cases kind with
  | leftParen => cases h; simp [Alphabet.isLegal]
  | rightParen => cases h; simp [Alphabet.isLegal]
  | symbol name =>
    obtain ⟨rfl, ⟨b, body, hbytes, hb, hbody⟩, -⟩ := h
    rw [hbytes]
    exact List.forall_mem_cons.mpr
      ⟨isLegal_of_startsSymbol hb, fun c hc => isLegal_of_continuesSymbol (hbody c hc)⟩
  | number value =>
    exact fun b hb => isLegal_of_continuesSymbol (isDigit_class (h.2.1 b hb)).2.2.2.2
  | eof => cases h

/-! ## Numbers that are not too large -/

theorem not_tooLarge_nil : ¬Number.TooLarge (Number.ofDigits []) := by
  rw [← Number.nearest?_eq_none_iff]
  nofun

/-- Digits behind digits make a number larger. -/
theorem ofDigits_le_append (digits more : List UInt8) :
    Number.ofDigits digits ≤ Number.ofDigits (digits ++ more) := by
  rw [Number.ofDigits, Number.ofDigits, List.foldl_append]
  generalize digits.foldl _ 0 = n
  induction more generalizing n with
  | nil => exact Nat.le_refl n
  | cons d more ih => exact Nat.le_trans (by omega) (ih (10 * n + (d.toNat - 48)))

theorem TokenKind.Munches.not_tooLarge {kind : TokenKind} {lexeme rest : List UInt8}
    (h : kind.Munches lexeme rest) (hvalue : kind.Rounds lexeme) :
    ¬Number.TooLarge (Number.ofDigits ((lexeme ++ rest).takeWhile isDigit)) := by
  cases kind with
  | leftParen => cases h; exact not_tooLarge_nil
  | rightParen => cases h; exact not_tooLarge_nil
  | symbol name =>
    obtain ⟨rfl, ⟨b, body, hbytes, hb, -⟩, -⟩ := h
    have hdigit : ¬isDigit b = true := by
      intro hd
      rw [(isDigit_class hd).2.2.2.1] at hb
      cases hb
    rw [hbytes, List.cons_append, List.takeWhile_cons_of_neg hdigit]
    exact not_tooLarge_nil
  | number value =>
    rw [(takeWhile_dropWhile_of_stop h.2.1 h.2.2).1, ← Number.nearest?_eq_none_iff,
      hvalue value rfl]
    nofun
  | eof => cases h

/-! ## Faults behind a lexeme -/

theorem munch_of_isBlank {b : UInt8} (hb : isBlank b = true) (rest : List UInt8) :
    munch ([b] ++ rest) = [b] := by
  simp [munch, startsSymbol_of_isBlank hb, isDigit_of_isBlank hb]

theorem not_tooLarge_of_isBlank {b : UInt8} (hb : isBlank b = true) (rest : List UInt8) :
    ¬Number.TooLarge (Number.ofDigits (([b] ++ rest).takeWhile isDigit)) := by
  have hrun : ¬isDigit b = true := by simp [isDigit_of_isBlank hb]
  rw [List.singleton_append, List.takeWhile_cons_of_neg hrun]
  exact not_tooLarge_nil

section Shift

variable {lexeme rest : List UInt8} {i : Nat} {expected : String} {part : List UInt8}

theorem boundary_append_iff (hmunch : munch (lexeme ++ rest) = lexeme) :
    Boundary (lexeme ++ rest) i ↔ i = 0 ∨ ∃ j, i = lexeme.length + j ∧ Boundary rest j := by
  constructor
  · intro h
    generalize htext : lexeme ++ rest = text at h
    cases h with
    | first => exact .inl rfl
    | @behind lexeme' rest' j hmunch' hrest =>
      obtain rfl : lexeme = lexeme' := by rw [← hmunch, htext, hmunch']
      obtain rfl := List.append_cancel_left htext
      exact .inr ⟨j, rfl, hrest⟩
  · rintro (rfl | ⟨j, rfl, hrest⟩)
    · exact .first _
    · exact .behind hmunch hrest

/-- **Shifting.** A lexeme without a fault moves the faults behind it. -/
theorem faultAt_append_iff (hmunch : munch (lexeme ++ rest) = lexeme)
    (hlegal : ∀ b ∈ lexeme, isLegal b = true)
    (hsmall : ¬Number.TooLarge (Number.ofDigits ((lexeme ++ rest).takeWhile isDigit))) :
    FaultAt (lexeme ++ rest) i expected part ↔
      ∃ j, i = lexeme.length + j ∧ FaultAt rest j expected part := by
  constructor
  · intro h
    cases h with
    | @illegal b hb hillegal =>
      rcases Nat.lt_or_ge i lexeme.length with hlt | hge
      · rw [List.getElem?_append_left hlt] at hb
        rw [hlegal b (List.mem_of_getElem? hb)] at hillegal
        cases hillegal
      · rw [List.getElem?_append_right hge] at hb
        exact ⟨i - lexeme.length, by omega, .illegal hb hillegal⟩
    | tooLarge hboundary hdigits hlarge =>
      rcases (boundary_append_iff hmunch).mp hboundary with rfl | ⟨j, rfl, hrest⟩
      · rw [List.drop_zero] at hdigits
        rw [hdigits] at hsmall
        exact absurd hlarge hsmall
      · rw [List.drop_length_add_append] at hdigits
        exact ⟨j, rfl, .tooLarge hrest hdigits hlarge⟩
  · rintro ⟨j, rfl, h⟩
    cases h with
    | illegal hb hillegal =>
      refine .illegal ?_ hillegal
      rwa [List.getElem?_append_right (Nat.le_add_right _ _), Nat.add_sub_cancel_left]
    | tooLarge hboundary hdigits hlarge =>
      refine .tooLarge ((boundary_append_iff hmunch).mpr (.inr ⟨j, rfl, hboundary⟩)) ?_ hlarge
      rwa [List.drop_length_add_append]

end Shift

theorem not_faultAt_nil {i : Nat} {expected : String} {part : List UInt8} :
    ¬FaultAt [] i expected part := by
  intro h
  cases h with
  | illegal hb => cases hb
  | tooLarge _ hdigits hlarge =>
    rw [List.drop_nil, List.takeWhile_nil] at hdigits
    subst hdigits
    exact not_tooLarge_nil hlarge

/-- At most one thing is wrong at an offset. -/
theorem FaultAt.unique {text : List UInt8} {i : Nat} {expected expected' : String}
    {part part' : List UInt8} (h : FaultAt text i expected part)
    (h' : FaultAt text i expected' part') : expected = expected' ∧ part = part' := by
  -- the first byte of digits is legal
  have hne : ∀ {b digits}, text[i]? = some b → isLegal b = false →
      (text.drop i).takeWhile isDigit = digits → ¬Number.TooLarge (Number.ofDigits digits) := by
    rintro b digits hb hillegal rfl
    have hdigit : ¬isDigit b = true := by
      intro hd
      rw [isLegal_of_continuesSymbol (isDigit_class hd).2.2.2.2] at hillegal
      cases hillegal
    obtain ⟨hi, rfl⟩ := List.getElem?_eq_some_iff.mp hb
    rw [List.drop_eq_getElem_cons hi, List.takeWhile_cons_of_neg hdigit]
    exact not_tooLarge_nil
  cases h with
  | illegal hb hillegal =>
    cases h' with
    | illegal hb' _ =>
      obtain rfl := Option.some.inj (hb.symm.trans hb')
      exact ⟨rfl, rfl⟩
    | tooLarge _ hdigits hlarge => exact absurd hlarge (hne hb hillegal hdigits)
  | tooLarge _ hdigits hlarge =>
    cases h' with
    | illegal hb hillegal => exact absurd hlarge (hne hb hillegal hdigits)
    | tooLarge _ hdigits' _ => exact ⟨rfl, hdigits.symm.trans hdigits'⟩

/-! ## What the lexer reports -/

/-- What the lexer comes to: the tokens of a text without a fault, or the first fault, with the same
answer whatever stands behind the bytes that are to blame. -/
inductive Judged (place : Position) (text : List UInt8) : Prop where
  | faultless {s : TokenStream} : TokenStream.scan place text = .ok s →
      (∀ i, FaultlessTo text i) → Judged place text
  | faulty {front part back : List UInt8} {expected : String} :
      text = front ++ (part ++ back) → part ≠ [] → FaultAt text front.length expected part →
        FaultlessTo text front.length →
          (∀ more, TokenStream.scan place (front ++ (part ++ more)) =
            .error (.malformed expected (place.advance front))) → Judged place text

namespace Judged

open TokenStream

variable {place : Position} {text lexeme rest : List UInt8}

/-- A fault at the very start. -/
theorem here {part back : List UInt8} {expected : String} (hpart : part ≠ [])
    (hfault : FaultAt (part ++ back) 0 expected part)
    (hscan : ∀ more, scan place (part ++ more) = .error (.malformed expected place)) :
    Judged place (part ++ back) :=
  .faulty (List.nil_append _).symm hpart hfault (fun _ h => absurd h (Nat.not_lt_zero _)) hscan

/-- A lexeme without a fault in front. It is read alike in front of all that starts alike. -/
theorem append {f : TokenStream → TokenStream} (hmunch : munch (lexeme ++ rest) = lexeme)
    (hlegal : ∀ b ∈ lexeme, isLegal b = true)
    (hsmall : ¬Number.TooLarge (Number.ofDigits ((lexeme ++ rest).takeWhile isDigit)))
    (hscan : ∀ rest', rest'.head? = rest.head? →
      scan place (lexeme ++ rest') = (scan (place.advance lexeme) rest').map f)
    (h : Judged (place.advance lexeme) rest) : Judged place (lexeme ++ rest) := by
  have hshift : ∀ {i}, FaultlessTo rest i → FaultlessTo (lexeme ++ rest) (lexeme.length + i) := by
    intro i hrest j hj expected part hfault
    obtain ⟨k, rfl, hrestFault⟩ := (faultAt_append_iff hmunch hlegal hsmall).mp hfault
    exact hrest k (by omega) expected part hrestFault
  cases h with
  | faultless hs hrest =>
    refine .faultless (by rw [hscan rest rfl, hs]; rfl) fun i j hj => ?_
    exact hshift (hrest i) j (Nat.lt_of_lt_of_le hj (Nat.le_add_left ..))
  | @faulty front part back expected htext hpart hfault hfirst herror =>
    subst htext
    have hbehind := (faultAt_append_iff hmunch hlegal hsmall).mpr ⟨_, rfl, hfault⟩
    have hfirst' := hshift hfirst
    rw [← List.length_append] at hbehind hfirst'
    refine .faulty (List.append_assoc lexeme front _).symm hpart hbehind hfirst' fun more => ?_
    have hhead : (front ++ (part ++ more)).head? = (front ++ (part ++ back)).head? := by
      cases front with
      | nil =>
        obtain ⟨b, tail, rfl⟩ := List.exists_cons_of_ne_nil hpart
        rfl
      | cons => rfl
    rw [List.append_assoc, hscan _ hhead, herror more, Position.advance_append]
    rfl

theorem blank {b : UInt8} (hb : isBlank b = true) (h : Judged (place.step b) rest) :
    Judged place (b :: rest) := by
  have hscan : ∀ rest', rest'.head? = rest.head? →
      scan place ([b] ++ rest') = (scan (place.advance [b]) rest').map id := by
    intro rest' _
    rw [List.singleton_append, scan_blank hb]
    cases h : scan (place.advance [b]) rest' <;> exact h
  exact append (munch_of_isBlank hb rest) (List.forall_mem_singleton.mpr (isLegal_of_isBlank hb))
    (not_tooLarge_of_isBlank hb rest) hscan h

/-- A byte that starts nothing. -/
theorem illegal {b : UInt8} (hb : isLegal b = false)
    (hscan : ∀ more, scan place (b :: more) = .error (.malformed expectedToken place))
    (rest : List UInt8) : Judged place (b :: rest) :=
  here (List.cons_ne_nil b []) (.illegal rfl hb) hscan

/-- Digits of a number that is too large, and is not made smaller by more digits. -/
theorem tooLarge {b : UInt8} {body : List UInt8} (hb : isDigit b = true)
    (hbody : ∀ c ∈ body, isDigit c = true) (hstop : ∀ c ∈ rest.head?, isDigit c = false)
    (hlarge : Number.TooLarge (Number.ofDigits (b :: body))) :
    Judged place (b :: body ++ rest) := by
  refine here (List.cons_ne_nil b body) (.tooLarge (.first _) ?_ hlarge) fun more => ?_
  · exact (takeWhile_dropWhile_of_stop (List.forall_mem_cons.mpr ⟨hb, hbody⟩) hstop).1
  · have hmore := hlarge.mono (ofDigits_le_append (b :: body) (more.takeWhile isDigit))
    rw [List.cons_append, ← List.takeWhile_append_of_pos hbody] at hmore
    exact scan_isDigit_of_none hb (Number.nearest?_eq_none_iff.mpr hmore)

theorem token {kind : TokenKind} (hmunches : kind.Munches lexeme rest)
    (hvalue : kind.Rounds lexeme) (h : Judged (place.advance lexeme) rest) :
    Judged place (lexeme ++ rest) :=
  append hmunches.munch_eq hmunches.isLegal (hmunches.not_tooLarge hvalue)
    (fun _ hhead => (hmunches.of_head (by simp [hhead])).scan_append hvalue place) h

end Judged

namespace TokenStream

theorem judged (place : Position) (text : List UInt8) : Judged place text := by
  fun_induction scan place text with
  | case1 place => -- the end of the text
    exact .faultless (by rw [scan]) fun _ _ _ _ _ => not_faultAt_nil
  | case2 place b rest hb ih => -- a blank
    exact .blank hb ih
  | case3 place rest _ ih => -- an opening parenthesis
    have hmunches : TokenKind.leftParen.Munches [leftParen] rest := rfl
    exact .token hmunches (TokenKind.rounds_of_ne (by simp)) ih
  | case4 place rest _ _ ih => -- a closing parenthesis
    have hmunches : TokenKind.rightParen.Munches [rightParen] rest := rfl
    exact .token hmunches (TokenKind.rounds_of_ne (by simp)) ih
  | case5 place b rest _ _ _ hb => -- a symbol
    rename_i ih
    have h := Judged.token (munches_symbol hb rest) (TokenKind.rounds_of_ne (by simp)) ih
    rwa [List.cons_append, List.takeWhile_append_dropWhile] at h
  | case6 place b rest _ _ _ _ hb _ _ value hvalue => -- digits of a double
    rename_i ih
    have hround := TokenKind.rounds_number_iff.mpr hvalue
    have h := Judged.token (munches_number hb rest value) hround ih
    rwa [List.cons_append, List.takeWhile_append_dropWhile] at h
  | case7 place b rest _ _ _ _ hb _ hvalue => -- digits of a number that is too large
    have hbody : ∀ c ∈ rest.takeWhile isDigit, isDigit c = true :=
      List.all_eq_true.mp List.all_takeWhile
    have hlarge := Number.nearest?_eq_none_iff.mp hvalue
    have h : Judged place (b :: rest.takeWhile isDigit ++ rest.dropWhile isDigit) :=
      .tooLarge hb hbody (head?_dropWhile_stop isDigit rest) hlarge
    rwa [List.cons_append, List.takeWhile_append_dropWhile] at h
  | case8 place b rest hblank hleft hright hsymbol hdigit => -- a byte that starts no token
    refine .illegal (isLegal_eq_false hblank hleft hright hsymbol hdigit) (fun more => ?_) rest
    exact scan_of_none (by simpa using hblank) hleft hright (by simpa using hsymbol)
      (by simpa using hdigit)

theorem script_eq_error {text : List UInt8} {e : ScriptError} (h : ofBytes text = .error e) :
    Script.ofBytes text = .error e := by
  rw [Script.ofBytes, h]
  rfl

/-- **First fault.** The lexer fails on the texts with a fault. What is reported is the first fault,
in the place of its offset, before any fault of the parentheses; what stands behind the bytes that
are to blame makes no difference. -/
theorem ofBytes_first_fault (text : List UInt8) :
    ((∃ e, ofBytes text = .error e) ↔ ∃ i expected part, FaultAt text i expected part) ∧
      ∀ i expected part, FaultAt text i expected part → FaultlessTo text i →
        let e := ScriptError.malformed expected (.inText text i)
        ofBytes text = .error e ∧ Script.ofBytes text = .error e ∧
          ∀ more, ofBytes (text.take i ++ (part ++ more)) = .error e ∧
            Script.ofBytes (text.take i ++ (part ++ more)) = .error e := by
  cases judged .first text with
  | @faultless s hs hnone =>
    have hno : ∀ i expected part, ¬FaultAt text i expected part :=
      fun i => hnone (i + 1) i (Nat.lt_succ_self i)
    refine ⟨⟨?_, ?_⟩, fun i expected part hfault => absurd hfault (hno i expected part)⟩
    · rintro ⟨e, he⟩
      cases hs.symm.trans he
    · rintro ⟨i, expected, part, hfault⟩
      exact absurd hfault (hno i expected part)
  | @faulty front part back expected htext hpart hfault hfirst herror =>
    have hall : ofBytes text = .error (.malformed expected (Position.first.advance front)) := by
      rw [htext]
      exact herror back
    refine ⟨⟨fun _ => ⟨_, _, _, hfault⟩, fun _ => ⟨_, hall⟩⟩, ?_⟩
    intro i expected' part' hfault' hfirst'
    -- both are first, so they are one
    have hsame : i = front.length := by
      rcases Nat.lt_trichotomy i front.length with hlt | heq | hgt
      · exact absurd hfault' (hfirst i hlt expected' part')
      · exact heq
      · exact absurd hfault (hfirst' _ hgt expected part)
    subst hsame
    obtain ⟨rfl, rfl⟩ := hfault.unique hfault'
    have htake : text.take front.length = front := by rw [htext, List.take_left]
    have hplace : Position.inText text front.length = Position.first.advance front := by
      rw [htext, Position.inText_append]
    rw [htake, hplace]
    exact ⟨hall, script_eq_error hall, fun more => ⟨herror more, script_eq_error (herror more)⟩⟩

/-- A byte that is not legal behind a parenthesis without a partner. -/
theorem ofBytes_first_fault_behind_parens :
    let text := Bytes.utf8 "a)\n ?"
    FaultAt text 4 expectedToken [63] ∧ FaultlessTo text 4 ∧
      Script.ofBytes text = .error (.malformed expectedToken ⟨4, 2, 2⟩) := by
  intro text
  have hfault : FaultAt text 4 expectedToken [63] := .illegal (by decide) (by decide)
  have hfirst : FaultlessTo text 4 := by
    intro j hj expected part h
    have hlegal : ∀ b ∈ text.take 4, isLegal b = true := by decide +kernel
    have hnone : ∀ k < 4, (text.drop k).takeWhile isDigit = [] := by decide +kernel
    cases h with
    | @illegal b hb hillegal =>
      have hmem : b ∈ text.take 4 := List.mem_of_getElem? ((List.getElem?_take_of_lt hj).trans hb)
      rw [hlegal b hmem] at hillegal
      cases hillegal
    | tooLarge _ hdigits hlarge =>
      rw [hnone j hj] at hdigits
      subst hdigits
      exact not_tooLarge_nil hlarge
  have h := ((ofBytes_first_fault text).2 4 _ _ hfault hfirst).2.1
  exact ⟨hfault, hfirst, h⟩

end TokenStream

end SnapLisp
