import SnapLisp.Form.Parser
import SnapLisp.Proofs.Form.Canonical
import SnapLisp.Proofs.Token.Lexemes

/-!
# What the parser makes of the tokens of a form

The parser reads the tokens of a form as that form on top of the level it is on, whatever is open
around it (`Form.reads_of_kinds`). Spans come from the tokens, so the form is the same up to its
spans: `Form.bare` forgets them. What the parser makes of canonical tokens is canonical
(`Script.canonical_of_ofBytes`).
-/

namespace SnapLisp

namespace Form

mutual

/-- The form without its spans. -/
def bare : Form → Form
  | .symbol name _ => .symbol name (.point .first)
  | .number value _ => .number value (.point .first)
  | .list items _ => .list (bareAll items) (.point .first)

/-- The forms of a list without their spans. -/
def bareAll : List Form → List Form
  | [] => []
  | f :: fs => bare f :: bareAll fs

end

theorem bareAll_append (fs gs : List Form) : bareAll (fs ++ gs) = bareAll fs ++ bareAll gs := by
  induction fs with
  | nil => rfl
  | cons f fs ih => rw [List.cons_append, bareAll, ih, bareAll, List.cons_append]

end Form

namespace Script

/-! ## Reading the tokens of a form -/

/-- The tokens are read as these forms up to spans, on whatever level they stand. -/
def Reads (tokens : List Token) (forms : List Form) : Prop :=
  ∃ read' : List Form, Form.bareAll read' = Form.bareAll forms ∧
    ∀ level enclosing eof rest, read level enclosing eof (tokens ++ rest) =
      read (read'.reverse ++ level) enclosing eof rest

namespace Reads

variable {front back tokens : List Token} {forms forms' : List Form}

theorem nil : Reads [] [] := ⟨[], rfl, fun _ _ _ _ => rfl⟩

theorem append (hfront : Reads front forms) (hback : Reads back forms') :
    Reads (front ++ back) (forms ++ forms') := by
  obtain ⟨fs, hbare, hread⟩ := hfront
  obtain ⟨gs, hbare', hread'⟩ := hback
  refine ⟨fs ++ gs, by rw [Form.bareAll_append, hbare, hbare', Form.bareAll_append], ?_⟩
  intro level enclosing eof rest
  rw [List.append_assoc, hread, hread', List.reverse_append, List.append_assoc]

theorem symbol (name : String) (span span' : Span) :
    Reads [⟨.symbol name, span⟩] [.symbol name span'] :=
  ⟨[.symbol name span], rfl, fun _ _ _ _ => rfl⟩

theorem number (value : Float) (span span' : Span) :
    Reads [⟨.number value, span⟩] [.number value span'] :=
  ⟨[.number value span], rfl, fun _ _ _ _ => rfl⟩

/-- What stands between parentheses becomes one list. -/
theorem list (h : Reads tokens forms) (opening closing span : Span) :
    Reads (⟨.leftParen, opening⟩ :: (tokens ++ [⟨.rightParen, closing⟩])) [.list forms span] := by
  obtain ⟨gs, hbare, hread⟩ := h
  refine ⟨[.list gs ⟨opening.start, closing.stop⟩], ?_, ?_⟩
  · rw [Form.bareAll, Form.bareAll, Form.bareAll, Form.bareAll, Form.bare, Form.bare, hbare]
  · intro level enclosing eof rest
    rw [List.cons_append, List.append_assoc, read, hread, List.singleton_append, read,
      List.append_nil, List.reverse_reverse]
    rfl

end Reads

end Script

namespace Form

/-- Forms one after another. -/
theorem reads_of_kindsAll {forms : List Form} {tokens : List Token}
    (hforms : ∀ f ∈ forms, ∀ tokens : List Token, tokens.map Token.kind = f.kinds →
      Script.Reads tokens [f])
    (h : tokens.map Token.kind = kindsAll forms) : Script.Reads tokens forms := by
  induction forms generalizing tokens with
  | nil =>
    rw [List.map_eq_nil_iff.mp h]
    exact .nil
  | cons f fs ih =>
    obtain ⟨front, back, rfl, hfront, hback⟩ := List.map_eq_append_iff.mp h
    exact (hforms f (.head _) front hfront).append (ih (fun g hg => hforms g (.tail _ hg)) hback)

/-- **Parsing.** The tokens of a form are read as the form. -/
theorem reads_of_kinds (f : Form) :
    ∀ tokens : List Token, tokens.map Token.kind = f.kinds → Script.Reads tokens [f] := by
  induction f using induction with
  | symbol name span =>
    intro tokens h
    obtain ⟨⟨kind, span'⟩, rfl, rfl⟩ := List.map_eq_singleton_iff.mp h
    exact .symbol name span' span
  | number value span =>
    intro tokens h
    obtain ⟨⟨kind, span'⟩, rfl, rfl⟩ := List.map_eq_singleton_iff.mp h
    exact .number value span' span
  | list items span ih =>
    intro tokens h
    obtain ⟨⟨kind, opening⟩, inner, rfl, rfl, hinner⟩ := List.map_eq_cons_iff.mp h
    obtain ⟨body, last, rfl, hbody, hlast⟩ := List.map_eq_append_iff.mp hinner
    obtain ⟨⟨kind, closing⟩, rfl, rfl⟩ := List.map_eq_singleton_iff.mp hlast
    exact (reads_of_kindsAll ih hbody).list opening closing span

end Form

namespace Script

/-- The text of a canonical script is read as the script, up to spans. -/
theorem ofString_text {s : Script} (h : s.Canonical) :
    ∃ s', ofString s.text = .ok s' ∧ Form.bareAll s'.forms = Form.bareAll s.forms := by
  obtain ⟨stream, hstream, hkinds⟩ := tokens_of_text h
  obtain ⟨gs, hbare, hread⟩ := Form.reads_of_kindsAll (fun f _ => f.reads_of_kinds) hkinds
  refine ⟨⟨gs, ⟨.first, stream.eof.stop⟩⟩, ?_, hbare⟩
  have hall := hread [] [] stream.eof []
  rw [List.append_nil, List.append_nil] at hall
  rw [ofString, ofBytes, hstream]
  show read [] [] stream.eof stream.tokens = _
  rw [hall, read, finish, List.reverse_reverse]

/-! ## What is read is canonical -/

theorem canonical_of_finish {level : List Form} {enclosing : List OpenList} {eof : Span}
    {s : Script} (h : finish level enclosing eof = .ok s) (hlevel : ∀ f ∈ level, f.Canonical) :
    s.Canonical := by
  cases enclosing with
  | nil =>
    cases h
    exact fun f hf => hlevel f (List.mem_reverse.mp hf)
  | cons => cases h

/-- The forms read so far, on the level and before it, stay canonical. -/
theorem canonical_of_read {level : List Form} {enclosing : List OpenList} {eof : Span}
    {tokens : List Token} {s : Script} (h : read level enclosing eof tokens = .ok s)
    (htokens : ∀ t ∈ tokens, t.kind.Canonical) (hlevel : ∀ f ∈ level, f.Canonical)
    (henclosing : ∀ l ∈ enclosing, ∀ f ∈ l.before, f.Canonical) : s.Canonical := by
  fun_induction read level enclosing eof tokens with
  | case1 => -- no more tokens
    exact canonical_of_finish h hlevel
  | case2 => -- an end of input
    exact canonical_of_finish h hlevel
  | case3 level enclosing name span rest ih => -- a symbol
    have hname : IsLexeme name := htokens _ (.head _)
    exact ih h (fun t ht => htokens t (.tail _ ht))
      (List.forall_mem_cons.mpr ⟨Form.canonical_symbol.mpr hname, hlevel⟩) henclosing
  | case4 level enclosing value span rest ih => -- a number
    have hvalue : Number.Whole value := htokens _ (.head _)
    exact ih h (fun t ht => htokens t (.tail _ ht))
      (List.forall_mem_cons.mpr ⟨Form.canonical_number.mpr hvalue, hlevel⟩) henclosing
  | case5 level enclosing span rest ih => -- a list opens
    exact ih h (fun t ht => htokens t (.tail _ ht)) (fun f hf => nomatch hf)
      (List.forall_mem_cons.mpr ⟨hlevel, henclosing⟩)
  | case6 => -- a surplus closing parenthesis
    cases h
  | case7 level span rest list outer ih => -- the innermost list closes
    obtain ⟨hbefore, houter⟩ := List.forall_mem_cons.mp henclosing
    have hlist : ∀ item ∈ level.reverse, item.Canonical :=
      fun item hitem => hlevel item (List.mem_reverse.mp hitem)
    exact ih h (fun t ht => htokens t (.tail _ ht))
      (List.forall_mem_cons.mpr ⟨Form.canonical_list.mpr hlist, hbefore⟩) houter

/-- Whatever text is read, the script is canonical. -/
theorem canonical_of_ofBytes {bytes : List UInt8} {s : Script} (h : ofBytes bytes = .ok s) :
    s.Canonical := by
  cases hstream : TokenStream.ofBytes bytes with
  | error e =>
    rw [ofBytes, hstream] at h
    cases h
  | ok stream =>
    rw [ofBytes, hstream] at h
    exact canonical_of_read h (TokenStream.canonical_of_scan hstream) (fun f hf => nomatch hf)
      fun l hl => nomatch hl

end Script

end SnapLisp
