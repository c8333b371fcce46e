import SnapLisp.Json
import SnapLisp.Proofs.Number.Notation

/-!
# Documents are read in one way only

Two documents whose numbers are finite are the same if their texts are (`WellFormed.text_inj`). In
any text, what a document takes is settled by what it begins with: the first character tells which
kind of document it is, a numeral ends in front of a character that is none of its own, a string at
the first quote that is not escaped (`quote_inj`), and an array or an object where no comma follows
a member (`enclosed_inj`).
-/

namespace SnapLisp.Json

open Number (isNumeral)

/-! ## Strings -/

/-- The value of a lower-case hexadecimal digit. -/
def hexValue (c : Char) : Nat := if c.toNat < 58 then c.toNat - 48 else c.toNat - 87

/-- The first character that the text in a string stands for, and the text after it. -/
def unescape? : List Char → Option (Char × List Char)
  | [] => none
  | '\\' :: 'n' :: rest => some ('\n', rest)
  | '\\' :: 'r' :: rest => some ('\r', rest)
  | '\\' :: 't' :: rest => some ('\t', rest)
  | '\\' :: 'b' :: rest => some ('\x08', rest)
  | '\\' :: 'f' :: rest => some ('\x0c', rest)
  | '\\' :: 'u' :: '0' :: '0' :: high :: low :: rest =>
    some (Char.ofNat (16 * hexValue high + hexValue low), rest)
  | '\\' :: c :: rest => some (c, rest)
  | c :: rest => some (c, rest)

theorem hexValue_hexDigit : ∀ n < 16, hexValue (hexDigit n) = n := by decide

/-- Every character is read back from its escape. -/
theorem unescape?_escape (c : Char) (rest : List Char) :
    unescape? (escape c ++ rest) = some (c, rest) := by
  unfold escape
  -- the escapes of two characters, one after the other
  iterate 7
    split
    · subst c
      rfl
  rename_i hbackslash _ _ _ _ _
  split
  · rename_i hcontrol
    have hvalue : 16 * hexValue (hexDigit (c.toNat / 16)) + hexValue (hexDigit (c.toNat % 16)) =
        c.toNat := by
      rw [hexValue_hexDigit _ (by omega), hexValue_hexDigit _ (by omega)]
      omega
    simp only [List.cons_append, List.nil_append, unescape?, hvalue, Char.ofNat_toNat]
  · simp only [List.cons_append, List.nil_append]
    rw [unescape?]
    all_goals
      intros
      contradiction

/-- Where the characters of two strings have the same text, they are the same, and so is what
follows the quote behind them. -/
theorem flatMap_escape_inj {cs ds rest rest' : List Char}
    (h : cs.flatMap escape ++ '"' :: rest = ds.flatMap escape ++ '"' :: rest') :
    cs = ds ∧ rest = rest' := by
  have hquote (d : Char) (front front' : List Char) : '"' :: front ≠ escape d ++ front' := by
    intro heq
    have hread : unescape? ('"' :: front) = some (d, front') := heq ▸ unescape?_escape d front'
    obtain ⟨rfl, -⟩ : '"' = d ∧ front = front' := by simpa [unescape?] using hread
    cases heq
  induction cs generalizing ds with
  | nil =>
    cases ds with
    | nil => exact ⟨rfl, (List.cons.inj h).2⟩
    | cons d ds =>
      rw [List.flatMap_cons, List.append_assoc] at h
      exact absurd h (hquote d _ _)
  | cons c cs ih =>
    rw [List.flatMap_cons, List.append_assoc] at h
    cases ds with
    | nil => exact absurd h.symm (hquote c _ _)
    | cons d ds =>
      rw [List.flatMap_cons, List.append_assoc] at h
      have hread := congrArg unescape? h
      rw [unescape?_escape, unescape?_escape, Option.some.injEq, Prod.mk.injEq] at hread
      obtain ⟨rfl, htail⟩ := hread
      obtain ⟨rfl, hrest⟩ := ih htail
      exact ⟨rfl, hrest⟩

theorem quote_inj {s t : String} {rest rest' : List Char} (h : quote s rest = quote t rest') :
    s = t ∧ rest = rest' := by
  obtain ⟨hchars, hrest⟩ := flatMap_escape_inj (List.cons.inj h).2
  exact ⟨String.toList_inj.mp hchars, hrest⟩

/-! ## Numerals -/

/-- The rest does not go on with a numeral. -/
def Stops (rest : List Char) : Prop := ∀ c ∈ rest.head?, isNumeral c = false

/-- In front of such rests, the texts of `x` and `y` are told apart, and so are the rests. -/
def Unambiguous {α : Type} (write : α → List Char → List Char) (x y : α) : Prop :=
  ∀ {rest rest' : List Char}, Stops rest → Stops rest' → write x rest = write y rest' →
    x = y ∧ rest = rest'

/-- Two numerals are cut off at the same place. -/
theorem numeral_inj {cs ds rest rest' : List Char} (hcs : ∀ c ∈ cs, isNumeral c = true)
    (hds : ∀ c ∈ ds, isNumeral c = true) (hrest : Stops rest) (hrest' : Stops rest')
    (h : cs ++ rest = ds ++ rest') : cs = ds ∧ rest = rest' := by
  obtain ⟨htake, hdrop⟩ := takeWhile_dropWhile_of_stop hcs hrest
  obtain ⟨htake', hdrop'⟩ := takeWhile_dropWhile_of_stop hds hrest'
  exact ⟨by rw [← htake, h, htake'], by rw [← hdrop, h, hdrop']⟩

theorem isNumeral_toDigits (n : Nat) : ∀ c ∈ Nat.toDigits 10 n, isNumeral c = true :=
  fun c hc => Number.isNumeral_of_isDigit (Number.isDigit_toDigits n c hc)

theorem toDigits_inj {m n : Nat} (h : Nat.toDigits 10 m = Nat.toDigits 10 n) : m = n := by
  rw [← @Nat.ofDigitChars_ten_toDigits m, h, Nat.ofDigitChars_ten_toDigits]

/-- No natural number is written like a double, which has a point or an exponent. -/
theorem toDigits_ne_text {x : Float} (hx : x.isFinite = true) (n : Nat) :
    Nat.toDigits 10 n ≠ (Number.Format.json.text x).toList := by
  intro h
  obtain ⟨c, hc, hmark⟩ := @Number.Format.exists_mark_text _ .json rfl hx
  rw [← h] at hc
  rw [Number.isDigit_toDigits n c hc] at hmark
  cases hmark

/-! ## Members -/

section Members

variable {α : Type} {write : α → List Char → List Char} {level : Nat}

theorem newline_inj {rest rest' : List Char} (h : newline level rest = newline level rest') :
    rest = rest' := List.append_cancel_left (List.cons.inj h).2

/-- The text of members after the first one, each behind a comma and on a line of its own. -/
def further (write : α → List Char → List Char) (level : Nat) (xs : List α) (rest : List Char) :
    List Char :=
  xs.foldr (fun x rest => ',' :: newline level (write x rest)) rest

/-- The text of members up to the bracket that closes them, in front of a rest. -/
def enclosed (write : α → List Char → List Char) (level : Nat) (close : Char) :
    List α → List Char → List Char
  | [], rest => close :: rest
  | x :: xs, rest =>
    newline (level + 1) (write x (further write (level + 1) xs (newline level (close :: rest))))

theorem stops_further {level' : Nat} (xs : List α) (rest : List Char) :
    Stops (further write level xs (newline level' rest)) := by
  cases xs with
  | nil => rintro c ⟨⟩; decide
  | cons x xs => rintro c ⟨⟩; decide

variable {xs ys : List α} {rest rest' : List Char}

/-- There are as many further members as there are commas. -/
theorem further_inj {level' : Nat}
    (hwrite : ∀ x ∈ xs, ∀ y ∈ ys, Unambiguous write x y)
    (h : further write level xs (newline level' rest) =
      further write level ys (newline level' rest')) : xs = ys ∧ rest = rest' := by
  induction xs generalizing ys with
  | nil =>
    cases ys with
    | nil => exact ⟨rfl, newline_inj h⟩
    | cons y ys => cases h
  | cons x xs ih =>
    cases ys with
    | nil => cases h
    | cons y ys =>
      obtain ⟨rfl, htail⟩ := hwrite x (.head _) y (.head _) (stops_further xs rest)
        (stops_further ys rest') (newline_inj (List.cons.inj h).2)
      obtain ⟨rfl, hrest⟩ := ih (fun x hx y hy => hwrite x (.tail _ hx) y (.tail _ hy)) htail
      exact ⟨rfl, hrest⟩

theorem enclosed_inj {close : Char} (hclose : close ≠ '\n')
    (hwrite : ∀ x ∈ xs, ∀ y ∈ ys, Unambiguous write x y)
    (h : enclosed write level close xs rest = enclosed write level close ys rest') :
    xs = ys ∧ rest = rest' := by
  cases xs with
  | nil =>
    cases ys with
    | nil => exact ⟨rfl, (List.cons.inj h).2⟩
    | cons y ys => exact absurd (List.cons.inj h).1 hclose
  | cons x xs =>
    cases ys with
    | nil => exact absurd (List.cons.inj h).1.symm hclose
    | cons y ys =>
      obtain ⟨rfl, htail⟩ := hwrite x (.head _) y (.head _) (stops_further xs _)
        (stops_further ys _) (newline_inj h)
      obtain ⟨rfl, hrest⟩ :=
        further_inj (fun x hx y hy => hwrite x (.tail _ hx) y (.tail _ hy)) htail
      exact ⟨rfl, (List.cons.inj hrest).2⟩

end Members

/-! ## Documents -/

/-- The kinds of documents, the two kinds of numbers being one. -/
inductive Kind where
  | null
  | numeral
  | string
  | array
  | object

def kind : Json → Kind
  | .null => .null
  | .natural _ | .number _ => .numeral
  | .string _ => .string
  | .array _ => .array
  | .object _ => .object

/-- The kind of document that begins with a character. -/
def kindOf (first : Char) : Kind :=
  if isNumeral first then .numeral
  else if first = '"' then .string
  else if first = '[' then .array
  else if first = '\x7b' then .object
  else .null

/-- All doubles in the document are finite. -/
inductive WellFormed : Json → Prop
  | null : WellFormed .null
  | natural (n : Nat) : WellFormed (.natural n)
  | number {x : Float} (h : x.isFinite = true) : WellFormed (.number x)
  | string (s : String) : WellFormed (.string s)
  | array {items : List Json} (h : ∀ j ∈ items, WellFormed j) : WellFormed (.array items)
  | object {fields : List (String × Json)} (h : ∀ field ∈ fields, WellFormed field.2) :
    WellFormed (.object fields)

/-- The text of a field. -/
def renderField (level : Nat) (field : String × Json) (rest : List Char) : List Char :=
  quote field.1 (':' :: ' ' :: render level field.2 rest)

theorem unambiguous_renderField {level : Nat} {field field' : String × Json}
    (h : Unambiguous (render level) field.2 field'.2) :
    Unambiguous (renderField level) field field' := by
  intro rest rest' hrest hrest' heq
  obtain ⟨hkey, htail⟩ := quote_inj heq
  obtain ⟨hvalue, hrests⟩ := h hrest hrest' (List.cons.inj (List.cons.inj htail).2).2
  exact ⟨Prod.ext hkey hvalue, hrests⟩

theorem renderItems_eq (level : Nat) (items : List Json) (rest : List Char) :
    renderItems level items rest = further (render level) level items rest := by
  induction items with
  | nil => rfl
  | cons j js ih => rw [renderItems, ih]; rfl

theorem renderFields_eq (level : Nat) (fields : List (String × Json)) (rest : List Char) :
    renderFields level fields rest = further (renderField level) level fields rest := by
  induction fields with
  | nil => rfl
  | cons field fields ih => rw [renderFields, ih]; rfl

theorem render_array (level : Nat) (items : List Json) (rest : List Char) :
    render level (.array items) rest =
      '[' :: enclosed (render (level + 1)) level ']' items rest := by
  cases items with
  | nil => rw [render]; rfl
  | cons j js => rw [render, renderItems_eq]; rfl

theorem render_object (level : Nat) (fields : List (String × Json)) (rest : List Char) :
    render level (.object fields) rest =
      '\x7b' :: enclosed (renderField (level + 1)) level '\x7d' fields rest := by
  cases fields with
  | nil => rw [render]; rfl
  | cons field fields => rw [render, renderFields_eq]; rfl

/-- The first character of a document tells its kind. -/
theorem WellFormed.exists_first {j : Json} (h : WellFormed j) (level : Nat) (rest : List Char) :
    ∃ first tail, render level j rest = first :: tail ∧ kindOf first = j.kind := by
  have hnumeral {cs : List Char} (hne : cs ≠ []) (hcs : ∀ c ∈ cs, isNumeral c = true) :
      ∃ first tail, cs ++ rest = first :: tail ∧ kindOf first = .numeral := by
    obtain ⟨first, tail, rfl⟩ := List.exists_cons_of_ne_nil hne
    exact ⟨first, tail ++ rest, rfl, if_pos (hcs first (.head _))⟩
  cases h with
  | null => exact ⟨'n', _, by rw [render], rfl⟩
  | natural n =>
    rw [render]
    exact hnumeral Nat.toDigits_ne_nil (isNumeral_toDigits n)
  | number h =>
    rw [render]
    exact hnumeral (Number.Format.text_ne_nil _ h) (Number.Format.isNumeral_text _ h)
  | string s => exact ⟨'"', _, by rw [render]; rfl, rfl⟩
  | array h => exact ⟨'[', _, render_array .., rfl⟩
  | object h => exact ⟨'\x7b', _, render_object .., rfl⟩

theorem WellFormed.kind_eq {j k : Json} (hj : WellFormed j) (hk : WellFormed k) {level : Nat}
    {rest rest' : List Char} (h : render level j rest = render level k rest') :
    j.kind = k.kind := by
  obtain ⟨first, tail, hfirst, hkind⟩ := hj.exists_first level rest
  obtain ⟨first', tail', hfirst', hkind'⟩ := hk.exists_first level rest'
  rw [hfirst, hfirst'] at h
  rw [← hkind, ← hkind', (List.cons.inj h).1]

/-- A document is told apart from any other by its text, whatever follows. -/
theorem WellFormed.unambiguous {j k : Json} (hj : WellFormed j) (hk : WellFormed k)
    (level : Nat) : Unambiguous (render level) j k := by
  induction hj generalizing k level with
  | null =>
    intro rest rest' _ _ h
    have hkind := WellFormed.null.kind_eq hk h
    cases hk with
    | null =>
      rw [render, render] at h
      exact ⟨rfl, by simpa using h⟩
    | _ => cases hkind
  | natural n =>
    intro rest rest' hrest hrest' h
    have hkind := (WellFormed.natural n).kind_eq hk h
    cases hk with
    | natural m =>
      rw [render, render] at h
      obtain ⟨hdigits, hrests⟩ :=
        numeral_inj (isNumeral_toDigits n) (isNumeral_toDigits m) hrest hrest' h
      exact ⟨congrArg _ (toDigits_inj hdigits), hrests⟩
    | number hy =>
      rw [render, render] at h
      obtain ⟨hdigits, -⟩ := numeral_inj (isNumeral_toDigits n)
        (Number.Format.isNumeral_text _ hy) hrest hrest' h
      exact absurd hdigits (toDigits_ne_text hy n)
    | _ => cases hkind
  | number hx =>
    intro rest rest' hrest hrest' h
    have hkind := (WellFormed.number hx).kind_eq hk h
    cases hk with
    | natural m =>
      rw [render, render] at h
      obtain ⟨hdigits, -⟩ := numeral_inj (Number.Format.isNumeral_text _ hx)
        (isNumeral_toDigits m) hrest hrest' h
      exact absurd hdigits.symm (toDigits_ne_text hx m)
    | number hy =>
      rw [render, render] at h
      obtain ⟨htext, hrests⟩ := numeral_inj (Number.Format.isNumeral_text _ hx)
        (Number.Format.isNumeral_text _ hy) hrest hrest' h
      exact ⟨congrArg _ (Number.Format.eq_of_text rfl hx hy (String.toList_inj.mp htext)), hrests⟩
    | _ => cases hkind
  | string s =>
    intro rest rest' _ _ h
    have hkind := (WellFormed.string s).kind_eq hk h
    cases hk with
    | string t =>
      rw [render, render] at h
      obtain ⟨rfl, hrests⟩ := quote_inj h
      exact ⟨rfl, hrests⟩
    | _ => cases hkind
  | array hitems ih =>
    intro rest rest' _ _ h
    have hkind := (WellFormed.array hitems).kind_eq hk h
    cases hk with
    | array hitems' =>
      rw [render_array, render_array] at h
      obtain ⟨rfl, hrests⟩ := enclosed_inj (by decide)
        (fun x hx y hy => ih x hx (hitems' y hy) (level + 1)) (List.cons.inj h).2
      exact ⟨rfl, hrests⟩
    | _ => cases hkind
  | object hfields ih =>
    intro rest rest' _ _ h
    have hkind := (WellFormed.object hfields).kind_eq hk h
    cases hk with
    | object hfields' =>
      rw [render_object, render_object] at h
      obtain ⟨rfl, hrests⟩ := enclosed_inj (by decide)
        (fun x hx y hy => unambiguous_renderField (ih x hx (hfields' y hy) (level + 1)))
        (List.cons.inj h).2
      exact ⟨rfl, hrests⟩
    | _ => cases hkind

/-- **Documents.** Well-formed documents with the same text are the same. -/
theorem WellFormed.text_inj {j k : Json} (hj : WellFormed j) (hk : WellFormed k)
    (h : j.text = k.text) : j = k := by
  have hempty : Stops [] := fun c hc => nomatch hc
  exact (hj.unambiguous hk 0 hempty hempty (String.ofList_injective h)).1

end SnapLisp.Json
