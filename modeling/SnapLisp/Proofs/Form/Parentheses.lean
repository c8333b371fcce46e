import SnapLisp.Editor.Completeness
import SnapLisp.Form.Parser
import SnapLisp.Proofs.Token.Lexemes

/-!
# What the parentheses of a text decide

Whether a text that has tokens is a script, and why not, is decided by its parentheses alone:
`Input.unclosed?` counts them in the characters of the text, and `Script.Concluded` says what the
parser comes to for each count (`Script.concluded_ofString`). The parentheses among the characters
are those among the tokens (`Lexed.unclosed?_eq`), and the lists that the parser holds open are as
many as it has counted (`Script.concluded_read`).
-/

namespace SnapLisp

/-! ## Counting parentheses -/

namespace Input

variable {depth n : Nat} {c : Char} {front back rest cs : List Char}

theorem unclosed?_open : unclosed? depth ('(' :: rest) = unclosed? (depth + 1) rest := rfl

theorem unclosed?_close : unclosed? (depth + 1) (')' :: rest) = unclosed? depth rest := rfl

theorem unclosed?_skip (hopen : c ≠ '(') (hclose : c ≠ ')') :
    unclosed? depth (c :: rest) = unclosed? depth rest := by
  rw [unclosed?.eq_def]
  simp only [if_neg hopen, if_neg hclose]

theorem unclosed?_append :
    unclosed? depth (front ++ back) = (unclosed? depth front).bind (unclosed? · back) := by
  fun_induction unclosed? depth front with
  | case1 depth => -- the end of the text
    rfl
  | case2 depth rest ih => -- an opening parenthesis
    rw [List.cons_append, unclosed?_open, ih]
  | case3 rest _ => -- a closing parenthesis with no list open
    rfl
  | case4 rest _ depth ih => -- a closing parenthesis
    rw [List.cons_append, unclosed?_close, ih]
  | case5 depth c rest hopen hclose ih => -- any other character
    rw [List.cons_append, unclosed?_skip hopen hclose, ih]

theorem unclosed?_of_ne (h : ∀ c ∈ cs, c ≠ '(' ∧ c ≠ ')') : unclosed? depth cs = some depth := by
  induction cs with
  | nil => rfl
  | cons c rest ih =>
    obtain ⟨hopen, hclose⟩ := h c (.head _)
    rw [unclosed?_skip hopen hclose, ih fun d hd => h d (.tail _ hd)]

/-- As many closing parentheses close as many lists. -/
theorem unclosed?_replicate (depth n : Nat) :
    unclosed? (depth + n) (List.replicate n ')') = some depth := by
  induction n with
  | zero => rfl
  | succ n ih => exact ih

/-- If no list is closed that is not open, then the counts of both parentheses tell how many are
left. -/
theorem add_count_of_unclosed? (h : unclosed? depth cs = some n) :
    depth + cs.count '(' = n + cs.count ')' := by
  fun_induction unclosed? depth cs with
  | case1 depth => -- the end of the text
    cases h
    rfl
  | case2 depth rest ih => -- an opening parenthesis
    rw [List.count_cons_self, List.count_cons_of_ne (by decide), ← ih h]
    omega
  | case3 rest _ => -- a closing parenthesis with no list open
    cases h
  | case4 rest _ depth ih => -- a closing parenthesis
    rw [List.count_cons_self, List.count_cons_of_ne (by decide), ← Nat.add_assoc, ← ih h]
    omega
  | case5 depth c rest hopen hclose ih => -- any other character
    rw [List.count_cons_of_ne hopen, List.count_cons_of_ne hclose, ih h]

end Input

open Input

/-! ## Parentheses among tokens -/

/-- The parenthesis that the token is, if it is one. -/
def TokenKind.parens : TokenKind → List Char
  | .leftParen => ['(']
  | .rightParen => [')']
  | .symbol _ | .number _ | .eof => []

/-- The parentheses among the tokens. -/
def Script.parens (tokens : List Token) : List Char := tokens.flatMap (·.kind.parens)

namespace Bytes

/-- The characters of an ASCII text are its bytes. -/
theorem toList_eq_of_ascii {text : String} (h : ∀ b ∈ utf8 text, b < 128) :
    text.toList = (utf8 text).map (Char.ofNat ·.toNat) := by
  conv => lhs; rw [← ofAscii_utf8 h]
  exact String.toList_ofList

/-- A byte that is no parenthesis is none as a character. -/
theorem charOfNat_ne {b : UInt8} (hlt : b < 128) (hleft : b ≠ Alphabet.leftParen)
    (hright : b ≠ Alphabet.rightParen) :
    Char.ofNat b.toNat ≠ '(' ∧ Char.ofNat b.toNat ≠ ')' := by
  have hcode := toNat_charOfNat hlt
  refine ⟨fun heq => hleft ?_, fun heq => hright ?_⟩
  · rw [heq] at hcode
    exact UInt8.toNat_inj.mp hcode.symm
  · rw [heq] at hcode
    exact UInt8.toNat_inj.mp hcode.symm

end Bytes

namespace Alphabet

theorem ne_paren_of_continuesSymbol {b : UInt8} (h : continuesSymbol b = true) :
    b ≠ leftParen ∧ b ≠ rightParen := by
  grind [continuesSymbol, isDigit, isLetter, leftParen, rightParen]

theorem ne_paren_of_isBlank {b : UInt8} (h : isBlank b = true) :
    b < 128 ∧ b ≠ leftParen ∧ b ≠ rightParen := by
  grind [isBlank, leftParen, rightParen]

end Alphabet

open Alphabet

/-- Only the parentheses take a parenthesis. -/
theorem TokenKind.Munches.unclosed?_eq {kind : TokenKind} {lexeme rest : List UInt8}
    (h : kind.Munches lexeme rest) (depth : Nat) :
    unclosed? depth (lexeme.map (Char.ofNat ·.toNat)) = unclosed? depth kind.parens := by
  have hnone (hne : ∀ b ∈ lexeme, b ≠ Alphabet.leftParen ∧ b ≠ Alphabet.rightParen) :
      unclosed? depth (lexeme.map (Char.ofNat ·.toNat)) = some depth := by
    refine unclosed?_of_ne fun c hc => ?_
    obtain ⟨b, hb, rfl⟩ := List.mem_map.mp hc
    exact Bytes.charOfNat_ne (h.ascii b hb) (hne b hb).1 (hne b hb).2
  cases kind with
  | leftParen | rightParen => cases h; rfl
  | symbol name =>
    refine hnone ?_
    obtain ⟨rfl, ⟨b, body, hbytes, hb, hbody⟩, -⟩ := h
    obtain ⟨-, hleft, hright, -⟩ := startsSymbol_class hb
    rw [hbytes]
    exact List.forall_mem_cons.mpr
      ⟨⟨hleft, hright⟩, fun c hc => ne_paren_of_continuesSymbol (hbody c hc)⟩
  | number value =>
    exact hnone fun b hb => ne_paren_of_continuesSymbol (isDigit_class (h.2.1 b hb)).2.2.2.2
  | eof => cases h

/-- **Parentheses.** Those of a text are those among its tokens. -/
theorem Lexed.unclosed?_eq {place : Position} {text : List UInt8} {tokens : List Token}
    (h : Lexed place text tokens) (depth : Nat) :
    unclosed? depth (text.map (Char.ofNat ·.toNat)) = unclosed? depth (Script.parens tokens) := by
  induction h generalizing depth with
  | nil => rfl
  | @blank place b text tokens hb _ ih =>
    obtain ⟨hlt, hleft, hright⟩ := ne_paren_of_isBlank hb
    obtain ⟨hopen, hclose⟩ := Bytes.charOfNat_ne hlt hleft hright
    rw [List.map_cons, unclosed?_skip hopen hclose, ih]
  | token hmunches _ _ ih =>
    rw [List.map_append, unclosed?_append, hmunches.unclosed?_eq, Script.parens,
      List.flatMap_cons, unclosed?_append]
    exact Option.bind_congr fun n _ => ih n

/-! ## What the parser comes to -/

namespace Script

/-- What reading to the end of the input comes to if so many lists are open there, or if one was
closed that was not open. -/
inductive Concluded (stop : Position) : Option Nat → Except ScriptError Script → Prop where
  | surplus (place : Position) : Concluded stop none (.error (.malformed expectedForm place))
  | complete (s : Script) : Concluded stop (some 0) (.ok s)
  | unclosed (n : Nat) :
      Concluded stop (some (n + 1)) (.error (.malformed expectedClosing stop))

theorem concluded_finish (level : List Form) (enclosing : List OpenList) (eof : Span) :
    Concluded eof.start (some enclosing.length) (finish level enclosing eof) := by
  cases enclosing with
  | nil => exact .complete _
  | cons list outer => exact .unclosed _

/-- The lists that the parser holds open are counted by the parentheses. -/
theorem concluded_read {tokens : List Token} (hne : ∀ t ∈ tokens, t.kind ≠ .eof)
    (level : List Form) (enclosing : List OpenList) (eof : Span) :
    Concluded eof.start (unclosed? enclosing.length (parens tokens))
      (read level enclosing eof tokens) := by
  fun_induction read level enclosing eof tokens with
  | case1 level enclosing => -- no more tokens
    exact concluded_finish level enclosing eof
  | case2 level enclosing span rest => -- an end of input, which is none of these tokens
    exact absurd rfl (hne _ (.head _))
  | case3 level enclosing name span rest ih => -- a symbol
    exact ih fun t ht => hne t (.tail _ ht)
  | case4 level enclosing value span rest ih => -- a number
    exact ih fun t ht => hne t (.tail _ ht)
  | case5 level enclosing span rest ih => -- a list opens
    exact ih fun t ht => hne t (.tail _ ht)
  | case6 level span rest => -- a surplus closing parenthesis
    exact .surplus span.start
  | case7 level span rest list outer ih => -- the innermost list closes
    exact ih fun t ht => hne t (.tail _ ht)

/-- **Balance.** What a text with tokens is read as depends on its parentheses. -/
theorem concluded_ofString {text : String} {stream : TokenStream}
    (h : TokenStream.ofString text = .ok stream) :
    Concluded (.inText (Bytes.utf8 text) (Bytes.utf8 text).length) (unclosed? 0 text.toList)
      (ofString text) := by
  obtain ⟨hlexed, heof⟩ := TokenStream.scan_eq_ok_iff.mp h
  have hstop : stream.eof.start = .inText (Bytes.utf8 text) (Bytes.utf8 text).length := by
    rw [heof, ← Position.advance_first]
    rfl
  rw [← hstop, Bytes.toList_eq_of_ascii hlexed.ascii, hlexed.unclosed?_eq, ofString, ofBytes,
    show TokenStream.ofBytes (Bytes.utf8 text) = .ok stream from h]
  exact concluded_read (TokenStream.ne_eof_of_scan h) [] [] stream.eof

end Script

end SnapLisp
