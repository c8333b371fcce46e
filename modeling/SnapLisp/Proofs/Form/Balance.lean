import Mathlib.Data.List.Forall2
import Mathlib.Order.Bounds.Basic
import SnapLisp.Form.Parser

/-!
# Where reading ends, and what is read by then

Reading tokens ends at the first one that is the end of the input, or that closes a list while none
is open (`Script.StopsAt`). Nothing behind it matters. If lists are still open there the end of the
input is to blame, and otherwise the forms are exactly the tokens before it: `Form.FlattensTo`
writes a list as its opening parenthesis, its elements and its closing one
(`Script.ofTokenList_decidedAt_first_stop`).

The parser holds a level and the lists around it. `Script.Holds` says which tokens these are made
of, so one step of the parser adds one token, and at the end no token is lost.
-/

namespace SnapLisp

/-! ## Tokens of forms -/

/-- The tokens are those of the forms, in their order. A symbol and a number have the span of their
token, and a list reaches from the start of its opening parenthesis to the end of its closing
one. -/
inductive Form.FlattensTo : List Form → List Token → Prop where
  | nil : FlattensTo [] []
  | symbol (name : String) (span : Span) {forms : List Form} {tokens : List Token} :
      FlattensTo forms tokens →
        FlattensTo (.symbol name span :: forms) (⟨.symbol name, span⟩ :: tokens)
  | number (value : Float) (span : Span) {forms : List Form} {tokens : List Token} :
      FlattensTo forms tokens →
        FlattensTo (.number value span :: forms) (⟨.number value, span⟩ :: tokens)
  | list (opening closing : Span) {items forms : List Form} {inner tokens : List Token} :
      FlattensTo items inner → FlattensTo forms tokens →
        FlattensTo (.list items ⟨opening.start, closing.stop⟩ :: forms)
          (⟨.leftParen, opening⟩ :: (inner ++ ⟨.rightParen, closing⟩ :: tokens))

namespace Script

/-- How many of the tokens open a list. -/
def opened (tokens : List Token) : Nat := tokens.countP (·.kind = .leftParen)

/-- How many of the tokens close a list. -/
def closed (tokens : List Token) : Nat := tokens.countP (·.kind = .rightParen)

/-- Reading cannot go on behind token `i`: it is the end of the input, or it closes a list while
none is open. -/
def StopsAt (tokens : List Token) (i : Nat) : Prop :=
  ∃ t, tokens[i]? = some t ∧
    (t.kind = .eof ∨ t.kind = .rightParen ∧ opened (tokens.take i) = closed (tokens.take i))

end Script

namespace Form.FlattensTo

open Script

variable {forms forms' : List Form} {tokens tokens' : List Token}

theorem append (h : FlattensTo forms tokens) (h' : FlattensTo forms' tokens') :
    FlattensTo (forms ++ forms') (tokens ++ tokens') := by
  induction h with
  | nil => exact h'
  | symbol name span _ ih => exact .symbol name span ih
  | number value span _ ih => exact .number value span ih
  | list opening closing hitems _ _ ih =>
    rw [List.cons_append, List.cons_append, List.append_assoc]
    exact .list opening closing hitems ih

/-- Forms open as many lists as they close. -/
theorem opened_eq_closed (h : FlattensTo forms tokens) : opened tokens = closed tokens := by
  induction h with
  | nil => rfl
  | symbol name span _ ih | number value span _ ih => simpa [opened, closed] using ih
  | list opening closing _ _ ihitems ih =>
    simp only [opened, closed, List.countP_cons, List.countP_append] at ihitems ih ⊢
    simp [ihitems, ih]
    omega

/-- The tokens of forms are read as these forms, whatever is open around them. -/
theorem read_append (h : FlattensTo forms tokens) (level : List Form) (enclosing : List OpenList)
    (eof : Span) (rest : List Token) :
    Script.read level enclosing eof (tokens ++ rest) =
      Script.read (forms.reverse ++ level) enclosing eof rest := by
  induction h generalizing level enclosing rest with
  | nil => rfl
  | symbol name span _ ih | number value span _ ih =>
    rw [List.cons_append, Script.read, ih, List.reverse_cons, List.append_assoc,
      List.singleton_append]
  | list opening closing _ _ ihitems ih =>
    rw [List.cons_append, List.append_assoc, Script.read, ihitems, List.cons_append, Script.read,
      ih, List.append_nil, List.reverse_reverse, List.reverse_cons, List.append_assoc,
      List.singleton_append]

theorem read_eq_ok (h : FlattensTo forms tokens) (eof : Span) :
    Script.read [] [] eof tokens = .ok ⟨forms, ⟨.first, eof.stop⟩⟩ := by
  have hread := h.read_append [] [] eof []
  rw [List.append_nil, List.append_nil] at hread
  rw [hread, Script.read, finish, List.reverse_reverse]

/-- Tokens flatten one list of forms only. -/
theorem unique (h : FlattensTo forms tokens) (h' : FlattensTo forms' tokens) : forms = forms' := by
  have hread := h.read_eq_ok (.point .first)
  rw [h'.read_eq_ok] at hread
  cases hread
  rfl

end Form.FlattensTo

namespace Script

/-! ## What the parser holds -/

/-- The tokens that the forms of the innermost level, the latest first, and the open lists around
it are made of. -/
inductive Holds : List Token → List Form → List OpenList → Prop where
  | outermost {tokens : List Token} {level : List Form} :
      Form.FlattensTo level.reverse tokens → Holds tokens level []
  | inside {outer inner : List Token} {level before : List Form} {enclosing : List OpenList}
      (opening : Span) :
      Holds outer before enclosing → Form.FlattensTo level.reverse inner →
        Holds (outer ++ ⟨.leftParen, opening⟩ :: inner) level
          (⟨opening.start, before⟩ :: enclosing)

theorem holds_nil : Holds [] [] [] := .outermost .nil

namespace Holds

variable {front more : List Token} {level : List Form} {enclosing : List OpenList}

/-- One more form on the innermost level. -/
theorem push {f : Form} (h : Holds front level enclosing) (hf : Form.FlattensTo [f] more) :
    Holds (front ++ more) (f :: level) enclosing := by
  cases h with
  | outermost hlevel =>
    refine .outermost ?_
    rw [List.reverse_cons]
    exact hlevel.append hf
  | inside opening houter hlevel =>
    rw [List.append_assoc, List.cons_append]
    refine .inside opening houter ?_
    rw [List.reverse_cons]
    exact hlevel.append hf

theorem openList (h : Holds front level enclosing) (opening : Span) :
    Holds (front ++ [⟨.leftParen, opening⟩]) [] (⟨opening.start, level⟩ :: enclosing) :=
  .inside opening h .nil

/-- The innermost list becomes a form on the level around it. -/
theorem closeList {list : OpenList} (h : Holds front level (list :: enclosing)) (closing : Span) :
    Holds (front ++ [⟨.rightParen, closing⟩])
      (.list level.reverse ⟨list.start, closing.stop⟩ :: list.before) enclosing := by
  cases h with
  | inside opening houter hlevel =>
    rw [List.append_assoc, List.cons_append]
    exact houter.push (.list opening closing hlevel .nil)

/-- The lists around the level are those that are opened and not closed. -/
theorem opened_eq (h : Holds front level enclosing) :
    opened front = closed front + enclosing.length := by
  induction h with
  | outermost hlevel => simpa using hlevel.opened_eq_closed
  | inside opening _ hlevel ih =>
    have hinner := hlevel.opened_eq_closed
    simp only [opened, closed, List.countP_append, List.countP_cons, List.length_cons]
      at ih hinner ⊢
    simp [ih, hinner]
    omega

end Holds

/-! ## The first stop -/

section Stops

variable {front rest : List Token} {t : Token}

theorem stopsAt_append_of_lt {j : Nat} (h : j < front.length) :
    StopsAt (front ++ rest) j ↔ StopsAt front j := by
  rw [StopsAt, StopsAt, List.getElem?_append_left h, List.take_append_of_le_length h.le]

theorem stopsAt_length :
    StopsAt (front ++ t :: rest) front.length ↔
      t.kind = .eof ∨ t.kind = .rightParen ∧ opened front = closed front := by
  simp [StopsAt]

theorem lt_length_of_stopsAt {j : Nat} (h : StopsAt front j) : j < front.length := by
  obtain ⟨t, ht, -⟩ := h
  exact (List.getElem?_eq_some_iff.mp ht).1

/-- There is no stop among the tokens. -/
def Passable (tokens : List Token) : Prop := ∀ j, ¬StopsAt tokens j

theorem passable_nil : Passable [] := fun _ h => absurd (lt_length_of_stopsAt h) (Nat.not_lt_zero _)

theorem Passable.concat (h : Passable front) (heof : t.kind ≠ .eof)
    (hparen : t.kind = .rightParen → opened front ≠ closed front) : Passable (front ++ [t]) := by
  intro j hj
  have hlt := lt_length_of_stopsAt hj
  rw [List.length_append, List.length_singleton] at hlt
  rcases Nat.lt_succ_iff_lt_or_eq.mp hlt with hlt | rfl
  · exact h j ((stopsAt_append_of_lt hlt).mp hj)
  · rcases stopsAt_length.mp hj with heof' | ⟨hkind, hcount⟩
    · exact heof heof'
    · exact hparen hkind hcount

/-- Behind tokens without a stop, the next one is the first stop. -/
theorem Passable.isLeast (h : Passable front)
    (ht : t.kind = .eof ∨ t.kind = .rightParen ∧ opened front = closed front) :
    IsLeast {i | StopsAt (front ++ t :: rest) i} front.length := by
  refine ⟨stopsAt_length.mpr ht, fun j hj => ?_⟩
  by_contra hlt
  exact h j ((stopsAt_append_of_lt (Nat.lt_of_not_le hlt)).mp hj)

end Stops

/-- What reading comes to at a token where it stops, with the given tokens before it. -/
inductive Answer (front : List Token) : Token → Except ScriptError Script → Prop where
  | surplus {span : Span} : opened front = closed front →
      Answer front ⟨.rightParen, span⟩ (.error (.malformed expectedForm span.start))
  | unclosed {span : Span} : closed front < opened front →
      Answer front ⟨.eof, span⟩ (.error (.malformed expectedClosing span.start))
  | complete {forms : List Form} {span : Span} : Form.FlattensTo forms front →
      Answer front ⟨.eof, span⟩ (.ok ⟨forms, ⟨.first, span.stop⟩⟩)

theorem Answer.stops {front : List Token} {t : Token} {r : Except ScriptError Script}
    (h : Answer front t r) :
    t.kind = .eof ∨ t.kind = .rightParen ∧ opened front = closed front := by
  cases h with
  | surplus hcount => exact .inr ⟨rfl, hcount⟩
  | unclosed | complete => exact .inl rfl

theorem Answer.unique {front : List Token} {t : Token} {r r' : Except ScriptError Script}
    (h : Answer front t r) (h' : Answer front t r') : r = r' := by
  cases h with
  | surplus => cases h'; rfl
  | unclosed hlt =>
    cases h' with
    | unclosed => rfl
    | complete hforms => exact absurd hforms.opened_eq_closed (Nat.ne_of_gt hlt)
  | complete hforms =>
    cases h' with
    | unclosed hlt => exact absurd hforms.opened_eq_closed (Nat.ne_of_gt hlt)
    | complete hforms' => rw [hforms.unique hforms']

/-- Reading the tokens behind `front` goes on to the first stop and has its answer there. -/
def Reaches (front tokens : List Token) (r : Except ScriptError Script) : Prop :=
  ∃ more t rest, tokens = more ++ t :: rest ∧ Passable (front ++ more) ∧ Answer (front ++ more) t r

section Reading

variable {front tokens : List Token} {t : Token} {r : Except ScriptError Script}
  {level : List Form} {enclosing : List OpenList}

theorem Reaches.here (h : Passable front) (hr : Answer front t r) (rest : List Token) :
    Reaches front (t :: rest) r :=
  ⟨[], t, rest, rfl, by rwa [List.append_nil], by rwa [List.append_nil]⟩

theorem Reaches.step (h : Reaches (front ++ [t]) tokens r) : Reaches front (t :: tokens) r := by
  obtain ⟨more, t', rest, rfl, hpass, hr⟩ := h
  rw [List.append_assoc, List.singleton_append] at hpass hr
  exact ⟨t :: more, t', rest, rfl, hpass, hr⟩

/-- Where the input ends, the parser answers by whether lists are open. -/
theorem Holds.answer_finish (h : Holds front level enclosing) (span : Span) :
    Answer front ⟨.eof, span⟩ (finish level enclosing span) := by
  have hcount := h.opened_eq
  cases h with
  | outermost hlevel => exact .complete hlevel
  | inside => exact .unclosed (by rw [hcount, List.length_cons]; omega)

/-- Each step of the parser adds a token to what it holds, up to the first stop. -/
theorem Holds.reaches (h : Holds front level enclosing) (hfront : Passable front) (eof : Span)
    (tokens : List Token) :
    Reaches front (tokens ++ [⟨.eof, eof⟩]) (Script.read level enclosing eof tokens) := by
  fun_induction Script.read level enclosing eof tokens generalizing front with
  | case1 level enclosing => -- no more tokens
    exact .here hfront (h.answer_finish eof) _
  | case2 level enclosing span rest => -- an end of input
    exact .here hfront (h.answer_finish span) _
  | case3 level enclosing name span rest ih => -- a symbol
    exact (ih (h.push (.symbol name span .nil)) (hfront.concat nofun nofun)).step
  | case4 level enclosing value span rest ih => -- a number
    exact (ih (h.push (.number value span .nil)) (hfront.concat nofun nofun)).step
  | case5 level enclosing span rest ih => -- a list opens
    exact (ih (h.openList span) (hfront.concat nofun nofun)).step
  | case6 level span rest => -- a surplus closing parenthesis
    exact .here hfront (.surplus h.opened_eq) _
  | case7 level span rest list outer ih => -- the innermost list closes
    have hcount := h.opened_eq
    rw [List.length_cons] at hcount
    exact (ih (h.closeList span) (hfront.concat nofun fun _ => by omega)).step

end Reading

end Script

/-! ## Trees and tokens -/

/-- Whether two tokens say the same, wherever they stand. Numbers compare as numbers. -/
def TokenKind.same : TokenKind → TokenKind → Bool
  | .leftParen, .leftParen | .rightParen, .rightParen | .eof, .eof => true
  | .symbol a, .symbol b => a == b
  | .number a, .number b => a == b
  | _, _ => false

namespace Form.FlattensTo

/-- The tokens say the same one by one. -/
abbrev SameTokens : List Token → List Token → Prop :=
  List.Forall₂ fun t u => t.kind.same u.kind = true

variable {fs gs : List Form} {ts us : List Token}

theorem sameTokens (hfs : FlattensTo fs ts) (hgs : FlattensTo gs us)
    (h : sameAll fs gs = true) : SameTokens ts us := by
  induction hfs generalizing gs us with
  | nil =>
    cases hgs with
    | nil => exact .nil
    | symbol | number | list => cases h
  | symbol name span hfs ih =>
    cases hgs with
    | nil => cases h
    | symbol name' span' hgs =>
      rw [sameAll, Bool.and_eq_true] at h
      exact .cons h.1 (ih hgs h.2)
    | number | list =>
      rw [sameAll, Bool.and_eq_true] at h
      cases h.1
  | number value span hfs ih =>
    cases hgs with
    | nil => cases h
    | number value' span' hgs =>
      rw [sameAll, Bool.and_eq_true] at h
      exact .cons h.1 (ih hgs h.2)
    | symbol | list =>
      rw [sameAll, Bool.and_eq_true] at h
      cases h.1
  | list opening closing hitems hfs ihitems ih =>
    cases hgs with
    | nil => cases h
    | list opening' closing' hitems' hgs =>
      rw [sameAll, Bool.and_eq_true] at h
      exact .cons rfl (List.rel_append (ihitems hitems' h.1) (.cons rfl (ih hgs h.2)))
    | symbol | number =>
      rw [sameAll, Bool.and_eq_true] at h
      cases h.1

/-- No form starts with the first of the tokens. -/
def Closes (tokens : List Token) : Prop := ∀ t ∈ tokens.head?, t.kind = .rightParen

theorem closes_nil : Closes [] := fun _ h => nomatch h

theorem closes_rightParen (span : Span) (rest : List Token) :
    Closes (⟨.rightParen, span⟩ :: rest) := by
  intro t ht
  cases ht
  rfl

/-- Where one list of tokens has a form and the other one has none, they do not say the same. -/
theorem not_sameTokens {t : Token} {rest more : List Token} (h : FlattensTo fs (t :: rest))
    (hus : Closes us) : ¬SameTokens (t :: more) us ∧ ¬SameTokens us (t :: more) := by
  cases us with
  | nil => exact ⟨nofun, nofun⟩
  | cons u us =>
    have hu : u.kind = .rightParen := hus u rfl
    have hsame : t.kind.same u.kind = false ∧ u.kind.same t.kind = false := by
      rw [hu]
      cases h <;> exact ⟨rfl, rfl⟩
    simp [hsame]

/-- Behind the same tokens stand the same trees, and the tokens of both end at the same place. -/
theorem sameAll_of_sameTokens (hfs : FlattensTo fs ts) (hgs : FlattensTo gs us)
    {ts' us' : List Token} (hts : Closes ts') (hus : Closes us')
    (h : SameTokens (ts ++ ts') (us ++ us')) : sameAll fs gs = true ∧ SameTokens ts' us' := by
  induction hfs generalizing gs us ts' us' with
  | nil =>
    cases us with
    | nil =>
      cases hgs
      exact ⟨rfl, h⟩
    | cons u us => exact absurd h (not_sameTokens hgs hts).2
  | symbol name span hfs ih =>
    cases hgs with
    | nil => exact absurd h (not_sameTokens (.symbol name span hfs) hus).1
    | symbol name' span' hgs =>
      obtain ⟨hhead, htail⟩ := List.forall₂_cons.mp h
      obtain ⟨hsame, hrest⟩ := ih hgs hts hus htail
      rw [sameAll, hsame, Bool.and_true]
      exact ⟨hhead, hrest⟩
    | number | list => cases (List.forall₂_cons.mp h).1
  | number value span hfs ih =>
    cases hgs with
    | nil => exact absurd h (not_sameTokens (.number value span hfs) hus).1
    | number value' span' hgs =>
      obtain ⟨hhead, htail⟩ := List.forall₂_cons.mp h
      obtain ⟨hsame, hrest⟩ := ih hgs hts hus htail
      rw [sameAll, hsame, Bool.and_true]
      exact ⟨hhead, hrest⟩
    | symbol | list => cases (List.forall₂_cons.mp h).1
  | list opening closing hitems hfs ihitems ih =>
    cases hgs with
    | nil => exact absurd h (not_sameTokens (.list opening closing hitems hfs) hus).1
    | list opening' closing' hitems' hgs =>
      rw [List.cons_append, List.cons_append, List.append_assoc, List.append_assoc] at h
      obtain ⟨hsame, hclosing⟩ := ihitems hitems' (closes_rightParen closing _)
        (closes_rightParen closing' _) (List.forall₂_cons.mp h).2
      obtain ⟨hsames, hrest⟩ := ih hgs hts hus (List.forall₂_cons.mp hclosing).2
      rw [sameAll, hsames, Bool.and_true]
      exact ⟨hsame, hrest⟩
    | symbol | number => cases (List.forall₂_cons.mp h).1

/-- Two lists of forms are the same trees exactly if their tokens say the same. -/
theorem sameAll_iff (hfs : FlattensTo fs ts) (hgs : FlattensTo gs us) :
    sameAll fs gs = true ↔ SameTokens ts us := by
  refine ⟨hfs.sameTokens hgs, fun h => ?_⟩
  rw [← List.append_nil ts, ← List.append_nil us] at h
  exact (hfs.sameAll_of_sameTokens hgs closes_nil closes_nil h).1

end Form.FlattensTo

namespace Script

/-! ## Token lists -/

/-- The token list ends in the end-of-input token. -/
def Terminated (tokens : List Token) : Prop := tokens.getLast?.map Token.kind = some .eof

/-- Token `i` is the first stop, and all that is read is what it decides. -/
structure DecidedAt (tokens : List Token) (i : Nat) (t : Token) : Prop where
  first : IsLeast {j | StopsAt tokens j} i
  token : tokens[i]? = some t
  /-- What stands behind the stop is not looked at. -/
  unread : ∀ others, Terminated others → others.take (i + 1) = tokens.take (i + 1) →
    ofTokenList others = ofTokenList tokens
  surplus : t.kind = .rightParen →
    ofTokenList tokens = .ok (.error (.malformed expectedForm t.span.start))
  unclosed : t.kind = .eof → closed (tokens.take i) < opened (tokens.take i) →
    ofTokenList tokens = .ok (.error (.malformed expectedClosing t.span.start))
  /-- Otherwise the forms are the tokens before the stop. -/
  complete : t.kind = .eof → ¬closed (tokens.take i) < opened (tokens.take i) →
    ∃ forms, ofTokenList tokens = .ok (.ok ⟨forms, ⟨.first, t.span.stop⟩⟩) ∧
      Form.FlattensTo forms (tokens.take i)
  /-- The parser is never without a form where one has to start. -/
  not_expectedToken : ∀ place,
    ofTokenList tokens ≠ .ok (.error (.malformed TokenStream.expectedToken place))

theorem exists_stream_of_terminated {tokens : List Token} (h : Terminated tokens) :
    ∃ s : TokenStream, tokens = s.toList := by
  obtain ⟨⟨kind, span⟩, hlast, hkind⟩ := Option.map_eq_some_iff.mp h
  obtain ⟨init, rfl⟩ := List.getLast?_eq_some_iff.mp hlast
  cases hkind
  exact ⟨⟨init, span⟩, rfl⟩

/-- A terminated list has a first stop, and the answer that this decides. -/
theorem exists_answer {tokens : List Token} (h : Terminated tokens) :
    ∃ front t rest r, tokens = front ++ t :: rest ∧ Passable front ∧ Answer front t r ∧
      ofTokenList tokens = .ok r := by
  obtain ⟨s, rfl⟩ := exists_stream_of_terminated h
  obtain ⟨front, t, rest, hsplit, hpass, hr⟩ :=
    holds_nil.reaches passable_nil s.eof s.tokens
  exact ⟨front, t, rest, _, hsplit, hpass, hr, by rw [ofTokenList, TokenStream.ofList?_toList]; rfl⟩

theorem Answer.ne_expectedToken {front : List Token} {t : Token} {r : Except ScriptError Script}
    (h : Answer front t r) (place : Position) :
    r ≠ .error (.malformed TokenStream.expectedToken place) := by
  cases h with
  | surplus | unclosed =>
    intro heq
    injection heq with heq
    injection heq with heq
    exact absurd heq (by decide)
  | complete => nofun

/-- What stands behind the first stop has no part in the answer. -/
theorem answer_of_append {front rest : List Token} {t : Token} {r : Except ScriptError Script}
    (hpass : Passable front) (hr : Answer front t r) (h : Terminated (front ++ t :: rest)) :
    ofTokenList (front ++ t :: rest) = .ok r := by
  obtain ⟨front', t', rest', r', hsplit, hpass', hr', hread⟩ := exists_answer h
  have hlength : front.length = front'.length := by
    have hleast : IsLeast {i | StopsAt (front ++ t :: rest) i} front.length :=
      hpass.isLeast hr.stops
    rw [hsplit] at hleast
    exact hleast.unique (hpass'.isLeast hr'.stops)
  obtain ⟨rfl, htail⟩ := List.append_inj hsplit hlength
  cases htail
  rw [hread, hr.unique hr']

theorem exists_decidedAt {tokens : List Token} (h : Terminated tokens) :
    ∃ i t, DecidedAt tokens i t := by
  obtain ⟨front, t, rest, r, rfl, hpass, hr, hread⟩ := exists_answer h
  have htake : (front ++ t :: rest).take front.length = front := List.take_left
  refine ⟨front.length, t, hpass.isLeast hr.stops, by simp, fun others hothers hsame => ?_, ?_, ?_,
    ?_, fun place => ?_⟩
  · obtain ⟨rest', rfl⟩ : ∃ rest', others = front ++ t :: rest' := by
      have hprefix : (front ++ t :: rest).take (front.length + 1) = front ++ [t] := by
        simp [List.take_append, List.take_of_length_le]
      refine ⟨others.drop (front.length + 1), ?_⟩
      conv => lhs; rw [← List.take_append_drop (front.length + 1) others, hsame, hprefix]
      rw [List.append_assoc, List.singleton_append]
    rw [hread]
    exact answer_of_append hpass hr hothers
  · intro hkind
    cases hr with
    | surplus => exact hread
    | unclosed | complete => cases hkind
  · intro hkind hlt
    rw [htake] at hlt
    cases hr with
    | surplus => cases hkind
    | unclosed => exact hread
    | complete hforms => exact absurd hforms.opened_eq_closed (Nat.ne_of_gt hlt)
  · intro hkind hlt
    rw [htake] at hlt ⊢
    cases hr with
    | surplus => cases hkind
    | unclosed hlt' => exact absurd hlt' hlt
    | complete hforms => exact ⟨_, hread, hforms⟩
  · rw [hread]
    exact fun heq => hr.ne_expectedToken place (Except.ok.inj heq)

theorem terminated_of_ofTokenList {tokens : List Token} {r : Except ScriptError Script}
    (h : ofTokenList tokens = .ok r) : Terminated tokens := by
  unfold ofTokenList TokenStream.ofList? at h
  split at h
  · rename_i hstream
    split at hstream
    · rename_i hlast
      rw [Terminated, hlast]
      rfl
    · cases hstream
  · cases h

/-- The forms of a script are the tokens before the first stop. -/
theorem flattensTo_of_ofTokenList {tokens : List Token} {s : Script} {i : Nat}
    (h : ofTokenList tokens = .ok (.ok s)) (hfirst : IsLeast {j | StopsAt tokens j} i) :
    Form.FlattensTo s.forms (tokens.take i) := by
  obtain ⟨front, t, rest, r, rfl, hpass, hr, hread⟩ :=
    exists_answer (terminated_of_ofTokenList h)
  obtain rfl := hfirst.unique (hpass.isLeast hr.stops)
  rw [hread] at h
  cases h
  cases hr with
  | complete hforms => rwa [List.take_left]

/-- **Balance.** A token list that ends in the end-of-input token has a first stop, and that
decides what is read: a closing parenthesis without a partner, an end inside a list, or forms that
are exactly the tokens before it. So two lists that are read hold the same trees exactly if their
tokens before the stop say the same. -/
theorem ofTokenList_decidedAt_first_stop :
    (∀ tokens, Terminated tokens → ∃ i t, DecidedAt tokens i t) ∧
      ∀ tokens₁ tokens₂ s₁ s₂ i₁ i₂, ofTokenList tokens₁ = .ok (.ok s₁) →
        ofTokenList tokens₂ = .ok (.ok s₂) → IsLeast {j | StopsAt tokens₁ j} i₁ →
          IsLeast {j | StopsAt tokens₂ j} i₂ →
            (s₁.same s₂ = true ↔ List.Forall₂ (fun t u => t.kind.same u.kind = true)
              (tokens₁.take i₁) (tokens₂.take i₂)) :=
  ⟨fun _ => exists_decidedAt, fun _ _ _ _ _ _ h₁ h₂ hfirst₁ hfirst₂ =>
    (flattensTo_of_ofTokenList h₁ hfirst₁).sameAll_iff (flattensTo_of_ofTokenList h₂ hfirst₂)⟩

/-- A stop may come before the last token, and two zeros of different sign are the same tree. -/
theorem ofTokenList_decidedAt_first_stop_zeros :
    let span : Span := .point .first
    let list (value : Float) : List Token :=
      [⟨.leftParen, span⟩, ⟨.number value, span⟩, ⟨.rightParen, span⟩]
    let tokens (value : Float) : List Token :=
      list value ++ ⟨.eof, span⟩ :: [⟨.rightParen, span⟩, ⟨.eof, span⟩]
    (∃ i t, DecidedAt (tokens 0) i t) ∧
      ∃ s₁ s₂, ofTokenList (tokens 0) = .ok (.ok s₁) ∧ ofTokenList (tokens (-0)) = .ok (.ok s₂) ∧
        s₁.same s₂ = true := by
  intro span list tokens
  have hfirst (value : Float) : IsLeast {j | StopsAt (tokens value) j} 3 := by
    have hpass : Passable (list value) :=
      ((passable_nil.concat (t := ⟨.leftParen, span⟩) nofun nofun).concat
        (t := ⟨.number value, span⟩) nofun nofun).concat nofun fun _ => by simp [opened, closed]
    exact hpass.isLeast (.inl rfl)
  refine ⟨ofTokenList_decidedAt_first_stop.1 _ rfl, _, _, rfl, rfl, ?_⟩
  rw [ofTokenList_decidedAt_first_stop.2 _ _ _ _ 3 3 rfl rfl (hfirst 0) (hfirst (-0))]
  exact .cons rfl (.cons (by decide) (.cons rfl .nil))

end Script

end SnapLisp
