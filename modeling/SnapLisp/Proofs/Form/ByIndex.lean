import SnapLisp.Proofs.Form.Balance
import SnapLisp.Proofs.Token.ByOffset

/-!
# Reading forms by index

The parser walks along the tokens once and keeps the lists that are open. Here a form is read by
descending into it: every list is read from its own part of the tokens, by an index into that part,
and it tells how many tokens it took. Every access is checked, and an index outside of the tokens is
a `Fault`. Tokens that end in the end-of-input token lead to none: the script is the one that the
parser reads, or the error is the same (`Script.readByIndex_eq`).
-/

namespace SnapLisp.Script

open Checked TokenStream

/-- The token at an index. -/
def tokenAt (tokens : List Token) (index : Nat) : Except Fault Token :=
  match tokens[index]? with
  | some t => .ok t
  | none => .error .outOfRange

mutual

/-- The form at the start of the tokens, and the number of tokens that it takes. -/
def formAt : (rounds : Nat) → List Token → Except Fault (Form × Nat)
  | 0, _ => .error .outOfRounds
  | rounds + 1, tokens => do
    let t ← tokenAt tokens 0
    match t.kind with
    | .symbol name => .ok (.symbol name t.span, 1)
    | .number value => .ok (.number value t.span, 1)
    | .leftParen => listFrom rounds tokens t.span.start 1 []
    | .rightParen | .eof => .error (.error (.malformed expectedToken t.span.start))

/-- The list at the start of the tokens, read on from an index; `items` are its elements before the
index, the latest first. -/
def listFrom :
    (rounds : Nat) → List Token → Position → Nat → List Form → Except Fault (Form × Nat)
  | 0, _, _, _, _ => .error .outOfRounds
  | rounds + 1, tokens, start, index, items => do
    let t ← tokenAt tokens index
    match t.kind with
    | .rightParen => .ok (.list items.reverse ⟨start, t.span.stop⟩, index + 1)
    | .eof => .error (.error (.malformed expectedClosing t.span.start))
    | _ =>
      let (form, count) ← formAt rounds (← suffix tokens index)
      listFrom rounds tokens start (index + count) (form :: items)

end

/-- The script, read on from an index; `forms` are those before it, the latest first. -/
def formsFrom (tokens : List Token) : (rounds : Nat) → Nat → List Form → Except Fault Script
  | 0, _, _ => .error .outOfRounds
  | rounds + 1, index, forms => do
    let t ← tokenAt tokens index
    match t.kind with
    | .eof => .ok ⟨forms.reverse, ⟨.first, t.span.stop⟩⟩
    | .rightParen => .error (.error (.malformed expectedForm t.span.start))
    | _ =>
      let (form, count) ← formAt rounds (← suffix tokens index)
      formsFrom tokens rounds (index + count) (form :: forms)

/-- The script that a token list spells. Two rounds a token are enough. -/
def readByIndex (tokens : List Token) : Except Fault Script :=
  formsFrom tokens (2 * tokens.length + 1) 0 []

/-! ## Parts of terminated lists -/

section Terminated

variable {tokens : List Token} {index : Nat}

theorem Terminated.drop (h : Terminated tokens) (hindex : index < tokens.length) :
    Terminated (tokens.drop index) := by
  rw [Terminated, List.getLast?_drop, if_neg (Nat.not_le.mpr hindex)]
  exact h

/-- Behind a token that does not end the input there is another one. -/
theorem Terminated.succ_lt (h : Terminated tokens) {t : Token} (ht : tokens[index]? = some t)
    (hkind : t.kind ≠ .eof) : index + 1 < tokens.length := by
  obtain ⟨hindex, rfl⟩ := List.getElem?_eq_some_iff.mp ht
  refine lt_of_le_of_ne hindex fun hlast => hkind ?_
  rw [Terminated, List.getLast?_eq_getElem?, ← hlast, Nat.add_sub_cancel, ht] at h
  exact Option.some.inj h

theorem Terminated.length_pos (h : Terminated tokens) : 0 < tokens.length := by
  cases tokens with
  | nil => cases h
  | cons t rest => exact Nat.succ_pos _

end Terminated

/-! ## Forms -/

/-- What is found agrees with what the parser does: it reads the tokens of the form as the form and
goes on behind them, or it stops with the same error. -/
inductive Agrees (tokens : List Token)
    (reads : List Form → List OpenList → Span → Except ScriptError Script) :
    Except Fault (Form × Nat) → Prop where
  | form {form : Form} {count : Nat} : 0 < count → count < tokens.length →
      (∀ level enclosing eof,
        reads level enclosing eof = read (form :: level) enclosing eof (tokens.drop count)) →
          Agrees tokens reads (.ok (form, count))
  | error {e : ScriptError} : (∀ level enclosing eof, reads level enclosing eof = .error e) →
      Agrees tokens reads (.error (.error e))

/-- Enough rounds find the forms. -/
def FormsAgree (rounds : Nat) : Prop :=
  ∀ t rest, Terminated (t :: rest) → t.kind ≠ .rightParen → t.kind ≠ .eof →
    2 * (t :: rest).length ≤ rounds →
      Agrees (t :: rest) (fun level enclosing eof => read level enclosing eof (t :: rest))
        (formAt rounds (t :: rest))

/-- Enough rounds find the rest of a list. -/
def ListsAgree (rounds : Nat) : Prop :=
  ∀ tokens start index items, Terminated tokens → index < tokens.length →
    2 * (tokens.length - index) < rounds →
      Agrees tokens (fun level enclosing eof =>
          read items (⟨start, level⟩ :: enclosing) eof (tokens.drop index))
        (listFrom rounds tokens start index items)

theorem formsAgree_succ {rounds : Nat} (hlists : ListsAgree rounds) : FormsAgree (rounds + 1) := by
  intro t rest hterm hright heof hrounds
  have hfirst : (t :: rest)[0]? = some t := rfl
  have hrest : 1 < (t :: rest).length := hterm.succ_lt hfirst heof
  obtain ⟨kind, span⟩ := t
  cases kind with
  | symbol name => exact .form Nat.one_pos hrest fun _ _ _ => rfl
  | number value => exact .form Nat.one_pos hrest fun _ _ _ => rfl
  | rightParen => exact absurd rfl hright
  | eof => exact absurd rfl heof
  | leftParen =>
    exact hlists _ span.start 1 [] hterm hrest (by omega)

section Steps

variable {tokens : List Token} {index : Nat} {t : Token}

theorem exists_token (hindex : index < tokens.length) :
    ∃ t, tokens[index]? = some t ∧ tokens.drop index = t :: tokens.drop (index + 1) :=
  ⟨_, List.getElem?_eq_getElem hindex, List.drop_eq_getElem_cons hindex⟩

theorem tokenAt_eq_ok (ht : tokens[index]? = some t) : tokenAt tokens index = .ok t := by
  rw [tokenAt, ht]

theorem suffix_drop (hindex : index < tokens.length) :
    suffix tokens index = .ok (tokens.drop index) := by
  have h := suffix_eq_ok (tokens.take index) (tokens.drop index)
  rwa [List.take_append_drop, List.length_take_of_le (Nat.le_of_lt hindex)] at h

/-- Where neither the list nor the input ends, the next element is read. -/
theorem listFrom_succ (ht : tokens[index]? = some t) (hright : t.kind ≠ .rightParen)
    (heof : t.kind ≠ .eof) (rounds : Nat) (start : Position) (items : List Form) :
    listFrom (rounds + 1) tokens start index items = formAt rounds (tokens.drop index) >>=
      fun (form, count) => listFrom rounds tokens start (index + count) (form :: items) := by
  have hsuffix := suffix_drop (List.getElem?_eq_some_iff.mp ht).1
  obtain ⟨kind, span⟩ := t
  cases kind with
  | rightParen => exact absurd rfl hright
  | eof => exact absurd rfl heof
  | symbol | number | leftParen =>
    simp only [listFrom, tokenAt_eq_ok ht, hsuffix, bind, Except.bind]

theorem formsFrom_succ (ht : tokens[index]? = some t) (hright : t.kind ≠ .rightParen)
    (heof : t.kind ≠ .eof) (rounds : Nat) (forms : List Form) :
    formsFrom tokens (rounds + 1) index forms = formAt rounds (tokens.drop index) >>=
      fun (form, count) => formsFrom tokens rounds (index + count) (form :: forms) := by
  have hsuffix := suffix_drop (List.getElem?_eq_some_iff.mp ht).1
  obtain ⟨kind, span⟩ := t
  cases kind with
  | rightParen => exact absurd rfl hright
  | eof => exact absurd rfl heof
  | symbol | number | leftParen =>
    simp only [formsFrom, tokenAt_eq_ok ht, hsuffix, bind, Except.bind]

/-- A form that stands at an index of a terminated list. -/
theorem FormsAgree.drop {rounds : Nat} (h : FormsAgree rounds) (hterm : Terminated tokens)
    (ht : tokens[index]? = some t) (hright : t.kind ≠ .rightParen) (heof : t.kind ≠ .eof)
    (hrounds : 2 * (tokens.length - index) ≤ rounds) :
    Agrees (tokens.drop index)
      (fun level enclosing eof => read level enclosing eof (tokens.drop index))
      (formAt rounds (tokens.drop index)) := by
  obtain ⟨hindex, rfl⟩ := List.getElem?_eq_some_iff.mp ht
  have hdrop : Terminated (tokens.drop index) := hterm.drop hindex
  have hlength : (tokens.drop index).length = tokens.length - index := List.length_drop
  rw [List.drop_eq_getElem_cons hindex] at hdrop hlength ⊢
  exact h _ _ hdrop hright heof (by omega)

end Steps

theorem listsAgree_succ {rounds : Nat} (hforms : FormsAgree rounds) (hlists : ListsAgree rounds) :
    ListsAgree (rounds + 1) := by
  intro tokens start index items hterm hindex hrounds
  obtain ⟨t, ht, hdrop⟩ := exists_token hindex
  by_cases hend : t.kind = .rightParen ∨ t.kind = .eof
  · simp only [listFrom, tokenAt_eq_ok ht, bind, Except.bind]
    rw [hdrop]
    obtain ⟨kind, span⟩ := t
    rcases hend with rfl | rfl
    · exact .form (Nat.succ_pos _) (hterm.succ_lt ht nofun) fun _ _ _ => rfl
    · exact .error fun _ _ _ => rfl
  · obtain ⟨hright, heof⟩ := not_or.mp hend
    have hform := hforms.drop hterm ht hright heof (by omega)
    rw [listFrom_succ ht hright heof]
    cases hfound : formAt rounds (tokens.drop index) with
    | error fault =>
      rw [hfound] at hform
      cases hform with
      | error hreads => exact .error fun _ _ _ => hreads _ _ _
    | ok found =>
      obtain ⟨form, count⟩ := found
      rw [hfound] at hform
      cases hform with
      | form hpos hcount hreads =>
        rw [List.length_drop] at hcount
        have hrest :=
          hlists tokens start (index + count) (form :: items) hterm (by omega) (by omega)
        simp only [List.drop_drop] at hreads
        simp only [hreads]
        exact hrest

theorem formsAgree (rounds : Nat) : FormsAgree rounds := by
  have h : FormsAgree rounds ∧ ListsAgree rounds := by
    induction rounds with
    | zero =>
      refine ⟨fun t rest _ _ _ hrounds => ?_, fun _ _ _ _ _ _ hrounds => nomatch hrounds⟩
      simp at hrounds
    | succ rounds ih => exact ⟨formsAgree_succ ih.2, listsAgree_succ ih.1 ih.2⟩
  exact h.1

/-! ## Scripts -/

theorem formsFrom_eq {rounds : Nat} {tokens : List Token} {index : Nat} (forms : List Form)
    (eof : Span) (hterm : Terminated tokens) (hindex : index < tokens.length)
    (hrounds : 2 * (tokens.length - index) < rounds) :
    formsFrom tokens rounds index forms =
      (read forms [] eof (tokens.drop index)).mapError .error := by
  induction rounds generalizing index forms with
  | zero => cases hrounds
  | succ rounds ih =>
    obtain ⟨t, ht, hdrop⟩ := exists_token hindex
    by_cases hend : t.kind = .rightParen ∨ t.kind = .eof
    · simp only [formsFrom, tokenAt_eq_ok ht, bind, Except.bind]
      rw [hdrop]
      obtain ⟨kind, span⟩ := t
      rcases hend with rfl | rfl <;> rfl
    · obtain ⟨hright, heof⟩ := not_or.mp hend
      have hform := (formsAgree rounds).drop hterm ht hright heof (by omega)
      rw [formsFrom_succ ht hright heof]
      cases hfound : formAt rounds (tokens.drop index) with
      | error fault =>
        rw [hfound] at hform
        cases hform with
        | error hreads => rw [hreads]; rfl
      | ok found =>
        obtain ⟨form, count⟩ := found
        rw [hfound] at hform
        cases hform with
        | form hpos hcount hreads =>
          rw [List.length_drop] at hcount
          rw [hreads, List.drop_drop]
          exact ih (form :: forms) (by omega) (by omega)

/-- The parser does not look behind an end-of-input token. -/
theorem read_append_eof (level : List Form) (enclosing : List OpenList) (eof span : Span)
    (tokens : List Token) :
    read level enclosing span (tokens ++ [⟨.eof, eof⟩]) = read level enclosing eof tokens := by
  fun_induction read level enclosing eof tokens with
  | case1 | case2 | case6 => -- no more tokens, an end of input, or a surplus closing parenthesis
    rfl
  | case3 _ _ _ _ _ ih | case4 _ _ _ _ _ ih => -- a symbol or a number
    exact ih
  | case5 _ _ _ _ ih | case7 _ _ _ _ _ ih => -- a list opens or closes
    exact ih

/-- **Reading by index.** No index outside of the tokens is used if these end in the end-of-input
token, and what is read is what the parser reads. -/
theorem readByIndex_eq {tokens : List Token} (h : Terminated tokens) :
    ∃ r, ofTokenList tokens = .ok r ∧ readByIndex tokens = r.mapError .error := by
  obtain ⟨stream, rfl⟩ := exists_stream_of_terminated h
  have hread := formsFrom_eq [] stream.eof h h.length_pos (Nat.lt_succ_self _)
  refine ⟨ofTokens stream, by rw [ofTokenList, ofList?_toList], ?_⟩
  rw [readByIndex]
  refine hread.trans ?_
  rw [List.drop_zero, toList, read_append_eof]
  rfl

end SnapLisp.Script
