import Mathlib.Logic.ExistsUnique
import SnapLisp.Proofs.Form.Parentheses
import SnapLisp.Proofs.Token.Faults

/-!
# The editor agrees with the parser

Of a line that has tokens the editor asks for more exactly if the line is no script yet, but can
still become one (`Input.isComplete_agrees`). `Input.Judgement` tells apart the three ways in which
the editor and the parser can see such a line; the line alone decides between them.

A line with a closing parenthesis too many stays without a script, however it goes on: the last
token of the line may grow, but the parentheses of a text are those among its characters, so those
of the line come first in all that begins with it.
-/

namespace SnapLisp.Input

/-- What becomes of a line. -/
inductive Judgement where
  /-- It is a script. -/
  | script
  /-- It ends inside a list. -/
  | unfinished
  /-- It closes a list that is not open. -/
  | beyondRepair
  deriving DecidableEq

/-- A closing parenthesis for each opening one that has none. -/
def closing (line : String) : String :=
  String.ofList (List.replicate (line.toList.count '(' - line.toList.count ')') ')')

/-- What the editor and the parser say of such a line, and what they say of its continuations. -/
def Judgement.Fits (line : String) : Judgement → Prop
  | .script => isComplete line = true ∧ ∃ s, Script.ofString line = .ok s
  | .unfinished =>
    isComplete line = false ∧
      Script.ofString line = .error (.malformed Script.expectedClosing
        (.inText (Bytes.utf8 line) (Bytes.utf8 line).length)) ∧
      ∃ s, Script.ofString (line ++ closing line) = .ok s
  | .beyondRepair =>
    isComplete line = true ∧
      (∃ place, Script.ofString line = .error (.malformed Script.expectedForm place)) ∧
      ∀ more, ∃ e, Script.ofString (line ++ more) = .error e

variable {line : String} {stream : TokenStream}

/-! ## What the editor counts -/

theorem isComplete_eq_false_iff :
    isComplete line = false ↔ ∃ n, unclosed? 0 line.toList = some (n + 1) := by
  unfold isComplete
  split
  · rename_i h
    simp [h]
  · rename_i h
    simp [h]
  · rename_i n h
    simp [h]

theorem isComplete_eq_true_iff : isComplete line = true ↔
    unclosed? 0 line.toList = none ∨ unclosed? 0 line.toList = some 0 := by
  unfold isComplete
  split <;> rename_i h <;> simp [h]

/-! ## Continuing a line -/

theorem exists_lexed_replicate (n : Nat) (place : Position) :
    ∃ tokens, Lexed place (List.replicate n Alphabet.rightParen) tokens := by
  induction n generalizing place with
  | zero => exact ⟨[], .nil place⟩
  | succ n ih =>
    obtain ⟨tokens, htokens⟩ := ih (place.advance [Alphabet.rightParen])
    have hmunches : TokenKind.rightParen.Munches [Alphabet.rightParen]
      (List.replicate n Alphabet.rightParen) := rfl
    exact ⟨_, .token hmunches (TokenKind.rounds_of_ne nofun) htokens⟩

theorem utf8_replicate (n : Nat) : Bytes.utf8 (String.ofList (List.replicate n ')')) =
    List.replicate n Alphabet.rightParen := by
  have hascii : ∀ c ∈ List.replicate n ')', c.toNat < 128 := by
    intro c hc
    rw [List.eq_of_mem_replicate hc]
    decide
  rw [Bytes.utf8_ofList_of_ascii hascii, List.map_replicate]
  rfl

/-- Closing parentheses can be put behind any line that has tokens. -/
theorem exists_stream_append_replicate (h : TokenStream.ofString line = .ok stream) (n : Nat) :
    ∃ stream',
      TokenStream.ofString (line ++ String.ofList (List.replicate n ')')) = .ok stream' := by
  obtain ⟨tokens, htokens⟩ := exists_lexed_replicate n (Position.first.advance (Bytes.utf8 line))
  have hends : Ends (List.replicate n Alphabet.rightParen) := by
    intro b hb
    rw [List.eq_of_mem_replicate (List.mem_of_head? hb)]
    exact Alphabet.continuesSymbol_rightParen
  have happend := (TokenStream.lexed_of_scan h).append hends htokens
  rw [← utf8_replicate, ← Bytes.utf8_append] at happend
  exact ⟨_, happend.scan_eq⟩

/-- The closing parentheses that are missing make a script of the line. -/
theorem exists_script_append_closing {n : Nat} (h : TokenStream.ofString line = .ok stream)
    (hcount : unclosed? 0 line.toList = some n) :
    ∃ s, Script.ofString (line ++ closing line) = .ok s := by
  have hmissing : line.toList.count '(' - line.toList.count ')' = n := by
    have := add_count_of_unclosed? hcount
    omega
  obtain ⟨stream', hstream'⟩ := exists_stream_append_replicate h n
  have hconcluded := Script.concluded_ofString hstream'
  have hclosed := unclosed?_replicate 0 n
  rw [Nat.zero_add] at hclosed
  rw [String.toList_append, String.toList_ofList, unclosed?_append, hcount, Option.bind_some,
    hclosed] at hconcluded
  rw [closing, hmissing]
  generalize Script.ofString _ = r at hconcluded
  cases hconcluded with
  | complete s => exact ⟨s, rfl⟩

/-- A line that closes a list that is not open cannot be mended by more text. -/
theorem exists_error_append (hcount : unclosed? 0 line.toList = none) (more : String) :
    ∃ e, Script.ofString (line ++ more) = .error e := by
  cases hstream : TokenStream.ofString (line ++ more) with
  | error e => exact ⟨e, TokenStream.script_eq_error hstream⟩
  | ok stream =>
    have hconcluded := Script.concluded_ofString hstream
    rw [String.toList_append, unclosed?_append, hcount, Option.bind_none] at hconcluded
    generalize Script.ofString _ = r at hconcluded
    cases hconcluded with
    | surplus place => exact ⟨_, rfl⟩

/-! ## Judging a line -/

/-- The parentheses decide. -/
theorem exists_judgement (h : TokenStream.ofString line = .ok stream) :
    ∃ v : Judgement, v.Fits line := by
  have hconcluded := Script.concluded_ofString h
  generalize hcount : unclosed? 0 line.toList = count at hconcluded
  generalize hread : Script.ofString line = r at hconcluded
  cases hconcluded with
  | surplus place =>
    exact ⟨.beyondRepair, isComplete_eq_true_iff.mpr (.inl hcount), ⟨place, hread⟩,
      exists_error_append hcount⟩
  | complete s => exact ⟨.script, isComplete_eq_true_iff.mpr (.inr hcount), s, hread⟩
  | unclosed n =>
    exact ⟨.unfinished, isComplete_eq_false_iff.mpr ⟨n, hcount⟩, hread,
      exists_script_append_closing h hcount⟩

theorem Judgement.Fits.unique {v w : Judgement} (hv : v.Fits line) (hw : w.Fits line) : v = w := by
  cases v with
  | script =>
    obtain ⟨hcomplete, s, hs⟩ := hv
    cases w with
    | script => rfl
    | unfinished => cases hcomplete.symm.trans hw.1
    | beyondRepair =>
      obtain ⟨-, ⟨place, he⟩, -⟩ := hw
      cases hs.symm.trans he
  | unfinished =>
    cases w with
    | unfinished => rfl
    | script | beyondRepair => cases hv.1.symm.trans hw.1
  | beyondRepair =>
    obtain ⟨hcomplete, ⟨place, he⟩, -⟩ := hv
    cases w with
    | beyondRepair => rfl
    | unfinished => cases hcomplete.symm.trans hw.1
    | script =>
      obtain ⟨-, s, hs⟩ := hw
      cases hs.symm.trans he

/-- The editor asks for more where more can help. -/
theorem isComplete_eq_false_iff_of_ok (h : TokenStream.ofString line = .ok stream) :
    isComplete line = false ↔ (∃ e, Script.ofString line = .error e) ∧
      ∃ more s, Script.ofString (line ++ more) = .ok s := by
  obtain ⟨v, hv⟩ := exists_judgement h
  cases v with
  | script =>
    obtain ⟨hcomplete, s, hs⟩ := hv
    simp [hcomplete, hs]
  | unfinished =>
    obtain ⟨hcomplete, he, s, hs⟩ := hv
    exact ⟨fun _ => ⟨⟨_, he⟩, _, s, hs⟩, fun _ => hcomplete⟩
  | beyondRepair =>
    obtain ⟨hcomplete, -, hmore⟩ := hv
    rw [hcomplete]
    refine ⟨nofun, ?_⟩
    rintro ⟨-, more, s, hs⟩
    obtain ⟨e, he⟩ := hmore more
    cases hs.symm.trans he

theorem exists_error_of_isComplete_eq_false (h : isComplete line = false) :
    ∃ e, Script.ofString line = .error e := by
  cases hstream : TokenStream.ofString line with
  | error e => exact ⟨e, TokenStream.script_eq_error hstream⟩
  | ok stream => exact ((isComplete_eq_false_iff_of_ok hstream).mp h).1

/-- **Agreement.** A line for which the editor asks for more is no script. A line that has tokens is
a script, or ends inside a list and becomes a script by closing what is open, or closes a list that
is not open and cannot become a script; it is one of these only, and the editor asks for more
exactly if the line is no script and some continuation of it is one. -/
theorem isComplete_agrees (line : String) :
    (isComplete line = false → ∃ e, Script.ofString line = .error e) ∧
      ∀ stream, TokenStream.ofString line = .ok stream →
        (∃! v : Judgement, v.Fits line) ∧
          (isComplete line = false ↔ (∃ e, Script.ofString line = .error e) ∧
            ∃ more s, Script.ofString (line ++ more) = .ok s) := by
  refine ⟨exists_error_of_isComplete_eq_false, fun stream h => ?_⟩
  obtain ⟨v, hv⟩ := exists_judgement h
  exact ⟨⟨v, hv, fun w hw => hw.unique hv⟩, isComplete_eq_false_iff_of_ok h⟩

/-- Two lists are open, and the last symbol of the line can still grow. -/
theorem isComplete_agrees_two_lists :
    let line := "(f (g x"
    isComplete line = false ∧ (∃ e, Script.ofString line = .error e) ∧
      ∃ stream, TokenStream.ofString line = .ok stream ∧ (∃! v : Judgement, v.Fits line) ∧
        ∃ more s, Script.ofString (line ++ more) = .ok s := by
  intro line
  have hline : isComplete line = false := by decide +kernel
  have hread : (TokenStream.ofString line).isOk = true := by decide +kernel
  cases hstream : TokenStream.ofString line with
  | error e => rw [hstream] at hread; cases hread
  | ok stream =>
    obtain ⟨herror, hagrees⟩ := isComplete_agrees line
    obtain ⟨hunique, hmore⟩ := hagrees stream hstream
    exact ⟨hline, herror hline, stream, rfl, hunique, (hmore.mp hline).2⟩

end SnapLisp.Input
