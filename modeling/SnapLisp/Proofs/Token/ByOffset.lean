import SnapLisp.Proofs.Token.Lexemes

/-!
# Reading a text by offsets

The lexer takes a text apart from its front. Here it keeps the whole text and an offset into it
instead, and every access to a part of the text is checked: to look at a place outside of the text,
or to find the end of the input elsewhere than at the end of the text, is a `Fault`. No text leads
to one: reading by offsets comes to the tokens that the lexer makes, or to the error that it reports
(`TokenStream.readByOffset_eq`), and it ends behind the last byte (`TokenStream.eof_of_ofBytes`).
-/

namespace SnapLisp

/-- Why reading by offsets stops. -/
inductive Fault where
  /-- The script is wrong. -/
  | error (e : ScriptError)
  /-- A place outside of what is read is looked at. -/
  | outOfRange
  /-- The end of the input is not the end of the text. -/
  | endMissed
  /-- More rounds are needed than the text allows. -/
  | outOfRounds
  deriving DecidableEq

namespace Checked

variable {α : Type}

/-- The elements from an index up to another one. -/
def slice (elements : List α) (start stop : Nat) : Except Fault (List α) :=
  if start ≤ stop ∧ stop ≤ elements.length then .ok ((elements.take stop).drop start)
  else .error .outOfRange

/-- The elements from an index on. -/
def suffix (elements : List α) (start : Nat) : Except Fault (List α) :=
  slice elements start elements.length

theorem slice_eq_ok (front part back : List α) :
    slice (front ++ (part ++ back)) front.length (front.length + part.length) = .ok part := by
  have hin : front.length + part.length ≤ (front ++ (part ++ back)).length := by
    simp only [List.length_append]
    omega
  rw [slice, if_pos ⟨Nat.le_add_right _ _, hin⟩, List.take_length_add_append, List.drop_left,
    List.take_left]

/-- A first element and those behind it that satisfy a test. -/
theorem slice_cons_takeWhile (p : α → Bool) (first : α) (rest : List α) :
    slice (first :: rest) 0 (first :: rest.takeWhile p).length =
      .ok (first :: rest.takeWhile p) := by
  have h := slice_eq_ok [] (first :: rest.takeWhile p) (rest.dropWhile p)
  rwa [List.nil_append, List.cons_append, List.takeWhile_append_dropWhile, List.length_nil,
    Nat.zero_add] at h

theorem suffix_eq_ok (front rest : List α) :
    suffix (front ++ rest) front.length = .ok rest := by
  have h := slice_eq_ok front rest []
  rwa [List.append_nil, ← List.length_append] at h

end Checked

namespace TokenStream

open Alphabet Checked

/-- The place `count` bytes further on in the text. -/
def advanceIn (text : List UInt8) (place : Position) (count : Nat) : Except Fault Position := do
  let passed ← slice text place.offset (place.offset + count)
  return { place.advance passed with offset := place.offset + count }

/-- The first place from the given one on without a blank. -/
def skipBlanks (text : List UInt8) (place : Position) : Except Fault Position := do
  advanceIn text place ((← suffix text place.offset).takeWhile isBlank).length

/-- The number of bytes and the kind of the token at the start of the bytes, or what is wanted
there. -/
def nextToken (bytes : List UInt8) : Except Fault (Except String (Nat × TokenKind)) :=
  match bytes with
  | [] => .ok (.ok (0, .eof))
  | b :: _ =>
    if b = leftParen then .ok (.ok (1, .leftParen))
    else if b = rightParen then .ok (.ok (1, .rightParen))
    else if startsSymbol b then do
      let stop := 1 + ((← suffix bytes 1).takeWhile continuesSymbol).length
      return .ok (stop, .symbol (Bytes.ofAscii (← slice bytes 0 stop)))
    else if isDigit b then do
      let stop := (bytes.takeWhile isDigit).length
      match Number.nearest? (Number.ofDigits (← slice bytes 0 stop)) with
      | some value => return .ok (stop, .number value)
      | none => return .error expectedFinite
    else .ok (.error expectedToken)

/-- Reads on from a place of the text, one token a round; `tokens` are those before the place, the
latest first. -/
def readFrom (text : List UInt8) :
    (rounds : Nat) → Position → List Token → Except Fault TokenStream
  | 0, _, _ => .error .outOfRounds
  | rounds + 1, place, tokens => do
    let start ← skipBlanks text place
    match ← nextToken (← suffix text start.offset) with
    | .ok (_, .eof) =>
      if start.offset = text.length then .ok ⟨tokens.reverse, .point start⟩
      else .error .endMissed
    | .ok (count, kind) =>
      let stop ← advanceIn text start count
      readFrom text rounds stop (⟨kind, ⟨start, stop⟩⟩ :: tokens)
    | .error expected => .error (.error (.malformed expected start))

/-- The tokens of a text. Every round but the last one takes at least one byte. -/
def readByOffset (text : List UInt8) : Except Fault TokenStream :=
  readFrom text (text.length + 1) .first []

/-! ## One round -/

theorem advanceIn_eq_ok {front : List UInt8} {place : Position}
    (hplace : place.offset = front.length) (part back : List UInt8) :
    advanceIn (front ++ (part ++ back)) place part.length = .ok (place.advance part) := by
  have hoffset : (place.advance part).offset = place.offset + part.length :=
    place.offset_advance part
  rw [advanceIn, hplace, slice_eq_ok, ← hplace, ← hoffset]
  rfl

/-- In front of blanks the lexer finds the same as behind them. -/
theorem scan_dropWhile_isBlank (place : Position) (text : List UInt8) :
    scan place text = scan (place.advance (text.takeWhile isBlank)) (text.dropWhile isBlank) := by
  induction text generalizing place with
  | nil => rfl
  | cons b rest ih =>
    cases hb : isBlank b with
    | true =>
      rw [scan_blank hb, List.takeWhile_cons_of_pos hb, List.dropWhile_cons_of_pos hb]
      exact ih _
    | false =>
      have hne : ¬isBlank b = true := by simp [hb]
      rw [List.takeWhile_cons_of_neg hne, List.dropWhile_cons_of_neg hne, Position.advance_nil]

theorem exists_skipBlanks {front : List UInt8} {place : Position}
    (hplace : place.offset = front.length) (rest : List UInt8) :
    ∃ blanks back, rest = blanks ++ back ∧ (∀ b ∈ back.head?, isBlank b = false) ∧
      skipBlanks (front ++ rest) place = .ok (place.advance blanks) ∧
        scan place rest = scan (place.advance blanks) back := by
  have hsplit : rest.takeWhile isBlank ++ rest.dropWhile isBlank = rest :=
    List.takeWhile_append_dropWhile
  refine ⟨_, _, hsplit.symm, ?_, ?_, scan_dropWhile_isBlank place rest⟩
  · intro b hb
    have := List.head?_dropWhile_not isBlank rest
    rw [hb] at this
    simpa using this
  · have hrest : suffix (front ++ rest) place.offset = .ok rest := by
      rw [hplace]
      exact suffix_eq_ok front rest
    have hpassed := advanceIn_eq_ok hplace (rest.takeWhile isBlank) (rest.dropWhile isBlank)
    rw [hsplit] at hpassed
    rw [skipBlanks, hrest]
    exact hpassed

/-- What the lexer finds at the start of bytes without a blank there: some of them are the text of a
token, or it stops. -/
inductive Next (bytes : List UInt8) : Except String (Nat × TokenKind) → Prop where
  | eof : bytes = [] → Next bytes (.ok (0, .eof))
  | token {count : Nat} {kind : TokenKind} {lexeme back : List UInt8} :
      bytes = lexeme ++ back → count = lexeme.length → lexeme ≠ [] → kind ≠ .eof →
        (∀ place, scan place bytes = (scan (place.advance lexeme) back).map
          (cons ⟨kind, ⟨place, place.advance lexeme⟩⟩)) →
            Next bytes (.ok (count, kind))
  | stop {expected : String} :
      (∀ place, scan place bytes = .error (.malformed expected place)) →
        Next bytes (.error expected)

theorem nextToken_next {bytes : List UInt8} (h : ∀ b ∈ bytes.head?, isBlank b = false) :
    ∃ r, nextToken bytes = .ok r ∧ Next bytes r := by
  unfold nextToken
  split
  · exact ⟨_, rfl, .eof rfl⟩
  rename_i b rest
  split
  case isTrue hb =>
    subst hb
    have hsplit : leftParen :: rest = [leftParen] ++ rest := rfl
    exact ⟨_, rfl, .token hsplit rfl (List.cons_ne_nil _ _) (by simp) fun _ => scan_leftParen⟩
  split
  case isTrue hb =>
    subst hb
    have hsplit : rightParen :: rest = [rightParen] ++ rest := rfl
    exact ⟨_, rfl, .token hsplit rfl (List.cons_ne_nil _ _) (by simp) fun _ => scan_rightParen⟩
  rename_i hleft hright
  split
  case isTrue hb =>
    have hrest : suffix (b :: rest) 1 = .ok rest := suffix_eq_ok [b] rest
    have hlexeme := slice_cons_takeWhile continuesSymbol b rest
    have hsplit : b :: rest =
        b :: rest.takeWhile continuesSymbol ++ rest.dropWhile continuesSymbol := by simp
    rw [List.length_cons, Nat.add_comm] at hlexeme
    simp only [hrest, hlexeme, bind, Except.bind]
    exact ⟨_, rfl, .token hsplit (Nat.add_comm _ _) (List.cons_ne_nil _ _) (by simp) fun _ =>
      scan_startsSymbol hb⟩
  split
  case isTrue hb =>
    have hrun : (b :: rest).takeWhile isDigit = b :: rest.takeWhile isDigit :=
      List.takeWhile_cons_of_pos hb
    have hlexeme := slice_cons_takeWhile isDigit b rest
    have hsplit : b :: rest = b :: rest.takeWhile isDigit ++ rest.dropWhile isDigit := by simp
    simp only [hrun, hlexeme, bind, Except.bind]
    split
    case h_1 value hvalue =>
      exact ⟨_, rfl, .token hsplit rfl (List.cons_ne_nil _ _) (by simp) fun _ =>
        scan_isDigit hb hvalue⟩
    case h_2 hvalue =>
      exact ⟨_, rfl, .stop fun place => scan_isDigit_of_none hb hvalue⟩
  rename_i hsymbol hdigit
  exact ⟨_, rfl, .stop fun place => scan_of_none (h b rfl) hleft hright (by simpa using hsymbol)
    (by simpa using hdigit)⟩

/-! ## The whole text -/

/-- With a round for each byte that is left and one for the end, reading from a place comes to what
the lexer finds from there on. -/
theorem readFrom_eq {rounds : Nat} {front rest : List UInt8} {place : Position}
    (tokens : List Token) (hplace : place.offset = front.length) (hrounds : rest.length < rounds) :
    readFrom (front ++ rest) rounds place tokens =
      ((scan place rest).map (prepend tokens.reverse)).mapError .error := by
  induction rounds generalizing front rest place tokens with
  | zero => cases hrounds
  | succ rounds ih =>
    obtain ⟨blanks, back, rfl, hback, hskip, hscan⟩ := exists_skipBlanks hplace rest
    obtain ⟨r, hr, hnext⟩ := nextToken_next hback
    have hstart : (place.advance blanks).offset = (front ++ blanks).length := by
      rw [Position.offset_advance, hplace, List.length_append]
    have hleft : back.length ≤ rounds := by
      simp only [List.length_append] at hrounds
      omega
    rw [hscan, readFrom, hskip]
    rw [← List.append_assoc]
    -- from here on the blanks belong to what is in front
    generalize place.advance blanks = start, front ++ blanks = front at hstart
    have hunread : suffix (front ++ back) start.offset = .ok back := by
      rw [hstart]
      exact suffix_eq_ok front back
    simp only [hunread, hr, bind, Except.bind]
    cases hnext with
    | eof hend =>
      subst hend
      simp only [scan, Except.map, Except.mapError, prepend, List.append_nil, if_pos hstart]
    | @token count kind lexeme unread hsplit hcount hne hkind htoken =>
      subst hsplit hcount
      have hstop : (start.advance lexeme).offset = (front ++ lexeme).length := by
        rw [Position.offset_advance, hstart, List.length_append]
      have hround : unread.length < rounds := by
        have hpos := List.length_pos_of_ne_nil hne
        simp only [List.length_append] at hleft
        omega
      have hgo := ih (⟨kind, ⟨start, start.advance lexeme⟩⟩ :: tokens) hstop hround
      rw [List.append_assoc] at hgo
      simp only [advanceIn_eq_ok hstart, hgo, htoken, map_cons, map_prepend_append,
        List.reverse_cons]
    | stop hstop => simp only [hstop, Except.map, Except.mapError]

/-- **Reading by offsets.** No place outside of the text is looked at, and the end of the input is
found at the end of the text, whatever the text is. -/
theorem readByOffset_eq (text : List UInt8) :
    readByOffset text = (ofBytes text).mapError .error := by
  have hfirst : Position.first.offset = ([] : List UInt8).length := rfl
  have h := readFrom_eq [] hfirst (Nat.lt_succ_self text.length)
  rw [List.nil_append] at h
  rw [readByOffset, h, ofBytes]
  cases scan .first text <;> rfl

/-- What the lexer takes for the end of the input is the end of the text. -/
theorem eof_of_ofBytes {text : List UInt8} {s : TokenStream} (h : ofBytes text = .ok s) :
    s.eof.start.offset = text.length := by
  rw [(scan_eq_ok_iff.mp h).2, Span.point, Position.offset_advance_first]

end TokenStream

end SnapLisp
