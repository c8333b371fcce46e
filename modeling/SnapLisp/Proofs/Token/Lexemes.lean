import SnapLisp.Proofs.Source.Places
import SnapLisp.Proofs.Token.Spelling

/-!
# A text as blanks and lexemes

`TokenKind.Munches` says which bytes a token takes of a text: all that can belong to it, so what
stands behind must not continue it. A text is `Lexed` by tokens if it is blanks and the bytes that
these tokens take, one after the other. This is what the lexer finds (`TokenStream.scan_eq_ok_iff`),
so facts about its tokens are proved along this relation.

A stretch of the text from the start of one token to the end of another one is lexed by the tokens
in between (`Lexed.slice`), and in another place by the same tokens, moved (`Lexed.shifted`). So no
token depends on what stands around the stretch.
-/

namespace SnapLisp

open Alphabet

/-! ## Maximal munch -/

/-- The bytes are what a token of the kind takes if the given ones are behind it. -/
def TokenKind.Munches (lexeme rest : List UInt8) : TokenKind → Prop
  | .leftParen => lexeme = [Alphabet.leftParen]
  | .rightParen => lexeme = [Alphabet.rightParen]
  | .symbol name => lexeme = Bytes.utf8 name ∧ IsLexeme name ∧ Ends rest
  | .number _ =>
    lexeme ≠ [] ∧ (∀ b ∈ lexeme, isDigit b = true) ∧ ∀ b ∈ rest.head?, isDigit b = false
  | .eof => False

/-- The byte can start a token of the kind. -/
def TokenKind.StartsWith (b : UInt8) : TokenKind → Prop
  | .leftParen => b = Alphabet.leftParen
  | .rightParen => b = Alphabet.rightParen
  | .symbol _ => startsSymbol b = true
  | .number _ => isDigit b = true
  | .eof => False

/-- If it is a number, then the one that the digits round to. -/
def TokenKind.Rounds (lexeme : List UInt8) (kind : TokenKind) : Prop :=
  ∀ value, kind = .number value → Number.nearest? (Number.ofDigits lexeme) = some value

@[simp] theorem TokenKind.rounds_number_iff {lexeme : List UInt8} {value : Float} :
    (TokenKind.number value).Rounds lexeme ↔
      Number.nearest? (Number.ofDigits lexeme) = some value := by
  simp [Rounds]

/-- Only numbers have a value. -/
theorem TokenKind.rounds_of_ne {lexeme : List UInt8} {kind : TokenKind}
    (h : ∀ value, kind ≠ .number value) : kind.Rounds lexeme :=
  fun value hkind => absurd hkind (h value)

/-- The same kind, up to the value of a number. -/
def TokenKind.Alike : TokenKind → TokenKind → Prop
  | .number _, .number _ => True
  | kind, kind' => kind = kind'

/-- The first token of a text, or one byte if no token starts there. -/
def munch : List UInt8 → List UInt8
  | [] => []
  | b :: rest =>
    if startsSymbol b then b :: rest.takeWhile continuesSymbol
    else if isDigit b then b :: rest.takeWhile isDigit
    else [b]

theorem TokenKind.Alike.eq_of_rounds {kind kind' : TokenKind} {lexeme : List UInt8}
    (h : kind.Alike kind') (hvalue : kind.Rounds lexeme) (hvalue' : kind'.Rounds lexeme) :
    kind = kind' := by
  cases kind with
  | number value =>
    cases kind' with
    | number value' =>
      have heq := (hvalue value rfl).symm.trans (hvalue' value' rfl)
      exact congrArg number (Option.some.inj heq)
    | leftParen | rightParen | symbol | eof => exact h
  | leftParen | rightParen | symbol | eof => exact h

/-- The first byte decides the kind, but for the name of a symbol. -/
theorem TokenKind.alike_or_symbols {kind kind' : TokenKind} {b : UInt8} (h : kind.StartsWith b)
    (h' : kind'.StartsWith b) :
    kind.Alike kind' ∨ ∃ name name', kind = .symbol name ∧ kind' = .symbol name' := by
  cases kind <;> cases kind' <;>
    grind [StartsWith, Alike, startsSymbol, isDigit, isLetter, Alphabet.leftParen,
      Alphabet.rightParen]

theorem TokenKind.StartsWith.isBlank_eq_false {kind : TokenKind} {b : UInt8}
    (h : kind.StartsWith b) : isBlank b = false := by
  cases kind with
  | leftParen | rightParen => cases h; rfl
  | symbol name => exact (startsSymbol_class h).1
  | number value => exact (isDigit_class h).1
  | eof => cases h

namespace TokenKind.Munches

variable {kind kind' : TokenKind} {lexeme rest rest' : List UInt8}

/-- A token takes at least one byte. -/
theorem exists_cons (h : kind.Munches lexeme rest) :
    ∃ b body, lexeme = b :: body ∧ kind.StartsWith b := by
  cases kind with
  | leftParen | rightParen => exact ⟨_, _, h, rfl⟩
  | symbol name =>
    obtain ⟨hname, ⟨b, body, hbytes, hb, -⟩, -⟩ := h
    exact ⟨b, body, hname.trans hbytes, hb⟩
  | number value =>
    obtain ⟨hne, hdigits, -⟩ := h
    obtain ⟨b, body, rfl⟩ := List.exists_cons_of_ne_nil hne
    exact ⟨b, body, rfl, hdigits b (.head _)⟩
  | eof => cases h

theorem munch_eq (h : kind.Munches lexeme rest) : munch (lexeme ++ rest) = lexeme := by
  cases kind with
  | leftParen => cases h; rfl
  | rightParen => cases h; rfl
  | symbol name =>
    obtain ⟨rfl, ⟨b, body, hbytes, hb, hbody⟩, hrest⟩ := h
    have hrun := (takeWhile_dropWhile_of_stop hbody hrest).1
    rw [hbytes, List.cons_append, munch, if_pos hb, hrun]
  | number value =>
    obtain ⟨hne, hdigits, hrest⟩ := h
    obtain ⟨b, body, rfl⟩ := List.exists_cons_of_ne_nil hne
    have hb := hdigits b (.head _)
    have hsymbol := (isDigit_class hb).2.2.2.1
    have hrun := (takeWhile_dropWhile_of_stop
      (fun c hc => hdigits c (.tail _ hc)) hrest).1
    rw [List.cons_append, munch, if_neg (by simp [hsymbol]), if_pos hb, hrun]
  | eof => cases h

/-- The bytes decide the kind. -/
theorem alike (h : kind.Munches lexeme rest) (h' : kind'.Munches lexeme rest') :
    kind.Alike kind' := by
  obtain ⟨b, body, rfl, hb⟩ := h.exists_cons
  obtain ⟨b', body', heq, hb'⟩ := h'.exists_cons
  obtain ⟨rfl, rfl⟩ := List.cons.inj heq
  rcases alike_or_symbols hb hb' with halike | ⟨name, name', rfl, rfl⟩
  · exact halike
  · have hbytes : Bytes.utf8 name = Bytes.utf8 name' := h.1.symm.trans h'.1
    exact congrArg symbol (Bytes.utf8_injective hbytes)

/-- A token takes the same in front of whatever starts with the same byte, or ends there. -/
theorem of_head (h : kind.Munches lexeme rest) (hhead : ∀ b ∈ rest'.head?, b ∈ rest.head?) :
    kind.Munches lexeme rest' := by
  cases kind with
  | leftParen | rightParen => exact h
  | symbol name => exact ⟨h.1, h.2.1, fun b hb => h.2.2 b (hhead b hb)⟩
  | number value => exact ⟨h.1, h.2.1, fun b hb => h.2.2 b (hhead b hb)⟩
  | eof => cases h

theorem of_append (h : kind.Munches lexeme (rest ++ rest')) : kind.Munches lexeme rest := by
  refine h.of_head ?_
  cases rest with
  | nil => simp
  | cons b tail => exact fun c hc => hc

/-- What cannot continue a symbol or a number ends a token, if nothing did so before. -/
theorem append (h : kind.Munches lexeme rest) (hends : Ends rest') :
    kind.Munches lexeme (rest ++ rest') := by
  cases rest with
  | cons => exact h.of_head fun _ hc => hc
  | nil =>
    cases kind with
    | leftParen | rightParen => exact h
    | symbol name => exact ⟨h.1, h.2.1, hends⟩
    | number value =>
      refine ⟨h.1, h.2.1, fun c hc => Bool.eq_false_iff.mpr fun hdigit => ?_⟩
      have hcontinues := (isDigit_class hdigit).2.2.2.2
      rw [hends c hc] at hcontinues
      cases hcontinues
    | eof => cases h

theorem ascii (h : kind.Munches lexeme rest) : ∀ b ∈ lexeme, b < 128 := by
  cases kind with
  | leftParen => cases h; simp [Alphabet.leftParen]
  | rightParen => cases h; simp [Alphabet.rightParen]
  | symbol name =>
    obtain ⟨rfl, ⟨b, body, hbytes, hb, hbody⟩, -⟩ := h
    rw [hbytes]
    exact ascii_of_lexeme hb hbody
  | number value => exact fun b hb => continuesSymbol_lt (isDigit_class (h.2.1 b hb)).2.2.2.2
  | eof => cases h

theorem canonical (h : kind.Munches lexeme rest) (hvalue : kind.Rounds lexeme) :
    kind.Canonical := by
  cases kind with
  | leftParen | rightParen => trivial
  | symbol name => exact h.2.1
  | number value => exact Number.whole_of_nearest? (hvalue value rfl)
  | eof => cases h

/-- The lexer makes the token. -/
theorem scan_append (h : kind.Munches lexeme rest) (hvalue : kind.Rounds lexeme)
    (place : Position) : TokenStream.scan place (lexeme ++ rest) =
      (TokenStream.scan (place.advance lexeme) rest).map
        (TokenStream.cons ⟨kind, ⟨place, place.advance lexeme⟩⟩) := by
  cases kind with
  | leftParen => cases h; exact TokenStream.scan_leftParen
  | rightParen => cases h; exact TokenStream.scan_rightParen
  | symbol name =>
    obtain ⟨rfl, ⟨b, body, hbytes, hb, hbody⟩, hrest⟩ := h
    have hname : Bytes.ofAscii (b :: body) = name := by
      rw [← hbytes]
      exact Bytes.ofAscii_utf8 (hbytes ▸ ascii_of_lexeme hb hbody)
    rw [hbytes, List.cons_append, TokenStream.scan_symbol hb hbody hrest, hname]
  | number value =>
    obtain ⟨hne, hdigits, hrest⟩ := h
    obtain ⟨b, body, rfl⟩ := List.exists_cons_of_ne_nil hne
    have hrun := takeWhile_dropWhile_of_stop
      (fun c hc => hdigits c (.tail _ hc)) hrest
    have hround := hvalue value rfl
    rw [← hrun.1] at hround
    rw [List.cons_append, TokenStream.scan_isDigit (hdigits b (.head _)) hround, hrun.1, hrun.2]
  | eof => cases h

end TokenKind.Munches

/-! ## Blanks and lexemes -/

/-- The bytes from a place on are blanks and what the tokens take, in their order. -/
inductive Lexed : Position → List UInt8 → List Token → Prop where
  | nil (place : Position) : Lexed place [] []
  | blank {place : Position} {b : UInt8} {text : List UInt8} {tokens : List Token} :
      isBlank b = true → Lexed (place.step b) text tokens → Lexed place (b :: text) tokens
  | token {place : Position} {kind : TokenKind} {lexeme rest : List UInt8} {tokens : List Token} :
      kind.Munches lexeme rest → kind.Rounds lexeme → Lexed (place.advance lexeme) rest tokens →
        Lexed place (lexeme ++ rest) (⟨kind, ⟨place, place.advance lexeme⟩⟩ :: tokens)

/-- A token in another place. -/
def Token.shifted (shift : Position → Position) (t : Token) : Token :=
  ⟨t.kind, t.span.shifted shift⟩

namespace Lexed

variable {place : Position} {text : List UInt8} {t : Token} {tokens front back own : List Token}

theorem scan_eq (h : Lexed place text tokens) :
    TokenStream.scan place text = .ok ⟨tokens, .point (place.advance text)⟩ := by
  induction h with
  | nil place => rw [TokenStream.scan]; rfl
  | blank hb _ ih => rw [TokenStream.scan_blank hb, ih]; rfl
  | token hmunches hvalue _ ih =>
    rw [hmunches.scan_append hvalue, ih, Position.advance_append]
    rfl

/-- Lexed texts are ASCII texts. -/
theorem ascii (h : Lexed place text tokens) : ∀ b ∈ text, b < 128 := by
  induction h with
  | nil => simp
  | blank hb _ ih =>
    refine List.forall_mem_cons.mpr ⟨?_, ih⟩
    grind [isBlank]
  | token hmunches _ _ ih => exact List.forall_mem_append.mpr ⟨hmunches.ascii, ih⟩

/-- The tokens from one of them on lex what is left of the text there. -/
theorem exists_drop (h : Lexed place text (front ++ t :: back)) :
    ∃ before lexeme rest, text = before ++ (lexeme ++ rest) ∧
      t.span = ⟨place.advance before, place.advance (before ++ lexeme)⟩ ∧
        t.kind.Munches lexeme rest ∧ t.kind.Rounds lexeme ∧
          Lexed (place.advance before) (lexeme ++ rest) (t :: back) := by
  generalize htokens : front ++ t :: back = tokens at h
  induction h generalizing front with
  | nil => cases front <;> cases htokens
  | @blank place b text tokens hb _ ih =>
    obtain ⟨before, lexeme, rest, rfl, hspan, hmore⟩ := ih htokens
    exact ⟨b :: before, lexeme, rest, rfl, hspan, hmore⟩
  | @token place kind taken rest tokens hmunches hvalue hrest ih =>
    cases front with
    | nil =>
      cases htokens
      exact ⟨[], taken, rest, rfl, rfl, hmunches, hvalue, .token hmunches hvalue hrest⟩
    | cons first front =>
      obtain ⟨before, lexeme, rest, rfl, hspan, hmore⟩ := ih (List.cons.inj htokens).2
      refine ⟨taken ++ before, lexeme, rest, by simp, ?_⟩
      rw [List.append_assoc, Position.advance_append, Position.advance_append]
      exact ⟨hspan, hmore⟩

/-- The tokens up to one of them lex the text up to the end of this one. -/
theorem exists_take (h : Lexed place text (front ++ t :: back)) :
    ∃ part after, text = part ++ after ∧ t.span.stop = place.advance part ∧
      Lexed place part (front ++ [t]) := by
  generalize htokens : front ++ t :: back = tokens at h
  induction h generalizing front with
  | nil => cases front <;> cases htokens
  | @blank place b text tokens hb _ ih =>
    obtain ⟨part, after, rfl, hstop, hpart⟩ := ih htokens
    exact ⟨b :: part, after, rfl, hstop, .blank hb hpart⟩
  | @token place kind taken rest tokens hmunches hvalue hrest ih =>
    cases front with
    | nil =>
      cases htokens
      refine ⟨taken, rest, rfl, rfl, ?_⟩
      have hown : Lexed place (taken ++ []) [⟨kind, ⟨place, place.advance taken⟩⟩] :=
        .token (hmunches.of_head nofun) hvalue (.nil _)
      rwa [List.append_nil] at hown
    | cons first front =>
      obtain ⟨part, after, rfl, hstop, hpart⟩ := ih (List.cons.inj htokens).2
      obtain rfl := (List.cons.inj htokens).1
      refine ⟨taken ++ part, after, by simp, ?_, ?_⟩
      · rw [hstop, Position.advance_append]
      · exact .token hmunches.of_append hvalue hpart

/-- A token is somewhere in the text, and takes what stands there. -/
theorem exists_of_mem (h : Lexed place text tokens) (ht : t ∈ tokens) :
    ∃ before lexeme rest, text = before ++ (lexeme ++ rest) ∧
      t.span = ⟨place.advance before, place.advance (before ++ lexeme)⟩ ∧
        t.kind.Munches lexeme rest ∧ t.kind.Rounds lexeme := by
  obtain ⟨front, back, rfl⟩ := List.append_of_mem ht
  obtain ⟨before, lexeme, rest, htext, hspan, hmunches, hvalue, -⟩ := h.exists_drop
  exact ⟨before, lexeme, rest, htext, hspan, hmunches, hvalue⟩

/-- **Slices.** The text from the start of one token to the end of another one is lexed by the
tokens from the one to the other. -/
theorem slice {first last : Token} (h : Lexed place text tokens) (hown : own <:+: tokens)
    (hfirst : own.head? = some first) (hlast : own.getLast? = some last) :
    ∃ before part after, text = before ++ (part ++ after) ∧
      Lexed (place.advance before) part own ∧ first.span.start = place.advance before ∧
        last.span.stop = place.advance (before ++ part) := by
  obtain ⟨front, back, rfl⟩ := hown
  obtain ⟨more, rfl⟩ := List.head?_eq_some_iff.mp hfirst
  rw [List.append_assoc, List.cons_append] at h
  obtain ⟨before, lexeme, rest, rfl, hspan, -, -, hbehind⟩ := h.exists_drop
  obtain ⟨init, hinit⟩ := List.getLast?_eq_some_iff.mp hlast
  rw [← List.cons_append, hinit, List.append_assoc, List.singleton_append] at hbehind
  obtain ⟨part, after, htext, hstop, hpart⟩ := hbehind.exists_take
  refine ⟨before, part, after, by rw [htext], ?_, by rw [hspan], ?_⟩
  · rwa [hinit]
  · rw [hstop, Position.advance_append]

/-- **Shifting.** A text in another place has the same tokens, moved with it. -/
theorem shifted {From : Position → Prop} {shift : Position → Position}
    (hshift : Position.Shift From shift) (h : Lexed place text tokens) (hplace : From place) :
    Lexed (shift place) text (tokens.map (Token.shifted shift)) := by
  induction h with
  | nil => exact .nil _
  | blank hb _ ih =>
    have hrest := ih (hshift.step _ hplace)
    rw [hshift.shift_step _ hplace] at hrest
    exact .blank hb hrest
  | @token place kind lexeme rest tokens hmunches hvalue _ ih =>
    have hrest := ih (hshift.advance hplace lexeme)
    rw [hshift.shift_advance hplace] at hrest
    have hmoved := Lexed.token hmunches hvalue hrest
    rwa [← hshift.shift_advance hplace] at hmoved

/-- Bytes that cannot continue a symbol or a number are lexed on their own. -/
theorem append {more : List UInt8} {tokens' : List Token} (hends : Ends more)
    (h : Lexed place text tokens) (h' : Lexed (place.advance text) more tokens') :
    Lexed place (text ++ more) (tokens ++ tokens') := by
  induction h with
  | nil => exact h'
  | blank hblank _ ih => exact .blank hblank (ih h')
  | token hmunches hvalue _ ih =>
    rw [Position.advance_append] at h'
    rw [List.append_assoc]
    exact .token (hmunches.append hends) hvalue (ih h')

/-- So are the bytes behind a blank. -/
theorem append_blank {b : UInt8} {more : List UInt8} {tokens' : List Token}
    (hb : isBlank b = true) (h : Lexed place text tokens)
    (h' : Lexed ((place.advance text).step b) more tokens') :
    Lexed place (text ++ b :: more) (tokens ++ tokens') :=
  h.append (ends_cons (continuesSymbol_of_isBlank hb) more) (.blank hb h')

end Lexed

/-! ## What the lexer finds -/

theorem head?_dropWhile_stop (p : UInt8 → Bool) (bytes : List UInt8) :
    ∀ b ∈ (bytes.dropWhile p).head?, p b = false := by
  intro b hb
  have := List.head?_dropWhile_not p bytes
  rw [hb] at this
  simpa using this

theorem munches_symbol {b : UInt8} (hb : startsSymbol b = true) (rest : List UInt8) :
    (TokenKind.symbol (Bytes.ofAscii (b :: rest.takeWhile continuesSymbol))).Munches
      (b :: rest.takeWhile continuesSymbol) (rest.dropWhile continuesSymbol) := by
  have hbody : ∀ c ∈ rest.takeWhile continuesSymbol, continuesSymbol c = true :=
    List.all_eq_true.mp List.all_takeWhile
  have hname := Bytes.utf8_ofAscii (ascii_of_lexeme hb hbody)
  exact ⟨hname.symm, ⟨b, _, hname, hb, hbody⟩, head?_dropWhile_stop _ _⟩

theorem munches_number {b : UInt8} (hb : isDigit b = true) (rest : List UInt8) (value : Float) :
    (TokenKind.number value).Munches (b :: rest.takeWhile isDigit) (rest.dropWhile isDigit) := by
  have hbody : ∀ c ∈ rest.takeWhile isDigit, isDigit c = true :=
    List.all_eq_true.mp List.all_takeWhile
  exact ⟨List.cons_ne_nil _ _, List.forall_mem_cons.mpr ⟨hb, hbody⟩, head?_dropWhile_stop _ _⟩

/-- A stream that starts with a token comes from one without it. -/
theorem TokenStream.exists_of_map_cons {t : Token} {result : Except ScriptError TokenStream}
    {s : TokenStream} (h : result.map (cons t) = .ok s) :
    ∃ s', result = .ok s' ∧ s = s'.cons t := by
  cases result with
  | error e => cases h
  | ok s' => cases h; exact ⟨s', rfl, rfl⟩

theorem TokenStream.lexed_of_scan {place : Position} {text : List UInt8} {s : TokenStream}
    (h : scan place text = .ok s) : Lexed place text s.tokens := by
  fun_induction scan place text generalizing s with
  | case1 place => -- the end of the text
    cases h
    exact .nil place
  | case2 place b rest hb ih => -- a blank
    exact .blank hb (ih h)
  | case3 place rest _ ih => -- an opening parenthesis
    obtain ⟨s', hs', rfl⟩ := exists_of_map_cons h
    have hmunches : TokenKind.leftParen.Munches [leftParen] rest := rfl
    exact .token hmunches (TokenKind.rounds_of_ne (by simp)) (ih hs')
  | case4 place rest _ _ ih => -- a closing parenthesis
    obtain ⟨s', hs', rfl⟩ := exists_of_map_cons h
    have hmunches : TokenKind.rightParen.Munches [rightParen] rest := rfl
    exact .token hmunches (TokenKind.rounds_of_ne (by simp)) (ih hs')
  | case5 place b rest _ _ _ hb => -- a symbol
    rename_i ih
    obtain ⟨s', hs', rfl⟩ := exists_of_map_cons h
    have hlexed := Lexed.token (munches_symbol hb rest) (TokenKind.rounds_of_ne (by simp)) (ih hs')
    rw [List.cons_append, List.takeWhile_append_dropWhile] at hlexed
    exact hlexed
  | case6 place b rest _ _ _ _ hb _ _ value hvalue => -- digits of a double
    rename_i ih
    obtain ⟨s', hs', rfl⟩ := exists_of_map_cons h
    have hround := TokenKind.rounds_number_iff.mpr hvalue
    have hlexed := Lexed.token (munches_number hb rest value) hround (ih hs')
    rw [List.cons_append, List.takeWhile_append_dropWhile] at hlexed
    exact hlexed
  | case7 => -- digits of a number that is too large
    cases h
  | case8 => -- a byte that starts no token
    cases h

/-- **Lexing.** The lexer finds the tokens that a text is made of, if there are any. -/
theorem TokenStream.scan_eq_ok_iff {place : Position} {text : List UInt8} {s : TokenStream} :
    scan place text = .ok s ↔
      Lexed place text s.tokens ∧ s.eof = .point (place.advance text) := by
  constructor
  · intro h
    have hlexed := lexed_of_scan h
    rw [hlexed.scan_eq] at h
    exact ⟨hlexed, (congrArg TokenStream.eof (Except.ok.inj h)).symm⟩
  · rintro ⟨hlexed, heof⟩
    rw [hlexed.scan_eq, ← heof]

/-- All tokens are symbols that are lexemes, natural numbers or parentheses. -/
theorem TokenStream.canonical_of_scan {place : Position} {bytes : List UInt8} {s : TokenStream}
    (h : scan place bytes = .ok s) : ∀ t ∈ s.tokens, t.kind.Canonical := by
  intro t ht
  obtain ⟨-, lexeme, rest, -, -, hmunches, hvalue⟩ := (lexed_of_scan h).exists_of_mem ht
  exact hmunches.canonical hvalue

/-- No token stands for the end of the input but the last one. -/
theorem TokenStream.ne_eof_of_scan {place : Position} {bytes : List UInt8} {s : TokenStream}
    (h : scan place bytes = .ok s) : ∀ t ∈ s.tokens, t.kind ≠ .eof := by
  intro t ht heof
  obtain ⟨-, lexeme, rest, -, -, hmunches, -⟩ := (lexed_of_scan h).exists_of_mem ht
  rw [heof] at hmunches
  exact hmunches

end SnapLisp
