import SnapLisp.Proofs.Number.Display
import SnapLisp.Proofs.Value.Outline

/-!
# Equal values are shown alike

The text of a value without closures and NaNs is read in one way only: its first character tells
the type, a number ends in front of a blank or a parenthesis, an operator where its bracket closes,
and a list where its parenthesis does (`Plain.toldApart`). So such values are equal exactly if
their texts are, and no others are equal to anything (`equal_iff`).
-/

namespace SnapLisp

namespace Value

open Number (isNumeral isShown)

/-- Neither a closure nor a NaN stands in the value, at whatever depth of lists. -/
inductive Plain : Value → Prop where
  | number {x : Float} : x.isNaN = false → Plain (.number x)
  | nil : Plain .nil
  | list {items : List Value} : (∀ item ∈ items, Plain item) → Plain (.list items)
  | builtin (op : Builtin) : Plain (.builtin op)

/-! ## Equal values -/

theorem equalAll_iff {vs ws : List Value} :
    equalAll vs ws = true ↔ List.Forall₂ (fun v w => equal v w = true) vs ws := by
  induction vs generalizing ws with
  | nil => cases ws <;> simp [equalAll]
  | cons v vs ih => cases ws <;> simp [equalAll, ih]

theorem not_nan_of_beq {x y : Float} (h : (x == y) = true) :
    x.isNaN = false ∧ y.isNaN = false := by
  obtain ⟨hx, hy, -⟩ := Float.beq_iff_ne_nan_and_eq.mp h
  rw [Float.isNaN_eq_decide_eq_nan, Float.isNaN_eq_decide_eq_nan]
  exact ⟨decide_eq_false hx, decide_eq_false hy⟩

/-- Lists of values that are equal only to values shown alike. -/
theorem plain_all_of_equalAll {vs ws : List Value}
    (h : List.Forall₂ (fun v w => equal v w = true) vs ws)
    (hvs : ∀ v ∈ vs, ∀ w, equal v w = true → v.Plain ∧ w.Plain ∧ v.text = w.text) :
    (∀ v ∈ vs, v.Plain) ∧ (∀ w ∈ ws, w.Plain) ∧ vs.map text = ws.map text := by
  induction h with
  | nil => exact ⟨nofun, nofun, rfl⟩
  | cons hvw _ ih =>
    obtain ⟨hv, hw, htext⟩ := hvs _ (.head _) _ hvw
    obtain ⟨hplain, hplain', htexts⟩ := ih fun v hv => hvs v (.tail _ hv)
    refine ⟨List.forall_mem_cons.mpr ⟨hv, hplain⟩, List.forall_mem_cons.mpr ⟨hw, hplain'⟩, ?_⟩
    rw [List.map_cons, List.map_cons, htext, htexts]

/-- What is equal to something is plain and shown alike. -/
theorem plain_of_equal {v w : Value} (h : equal v w = true) :
    v.Plain ∧ w.Plain ∧ v.text = w.text := by
  induction v using Value.induction generalizing w with
  | number x =>
    cases w with
    | number y =>
      obtain ⟨hx, hy⟩ := not_nan_of_beq h
      exact ⟨.number hx, .number hy, (Number.beq_iff_display hx hy).mp h⟩
    | nil | list | builtin | closure => cases h
  | nil =>
    cases w with
    | nil => exact ⟨.nil, .nil, rfl⟩
    | number | list | builtin | closure => cases h
  | builtin op =>
    cases w with
    | builtin op' =>
      obtain rfl : op = op' := eq_of_beq h
      exact ⟨.builtin op, .builtin op, rfl⟩
    | number | nil | list | closure => cases h
  | closure params body scope => cases w <;> cases h
  | list vs ih =>
    cases w with
    | list ws =>
      obtain ⟨hvs, hws, htexts⟩ := plain_all_of_equalAll (equalAll_iff.mp h) fun v hv _ => ih v hv
      refine ⟨.list hvs, .list hws, ?_⟩
      rw [text, text, texts_eq_map, texts_eq_map, htexts]
    | number | nil | builtin | closure => cases h

/-! ## Texts of values -/

/-- The characters of the text. -/
def chars (v : Value) : List Char := v.text.toList

/-- Further elements of a list, each behind a blank, and the parenthesis that closes it. -/
def further (vs : List Value) (rest : List Char) : List Char :=
  vs.foldr (fun v rest => ' ' :: (v.chars ++ rest)) (')' :: rest)

theorem toList_intercalate_texts (v : Value) (vs : List Value) (rest : List Char) :
    (" ".intercalate (texts (v :: vs))).toList ++ ')' :: rest = v.chars ++ further vs rest := by
  induction vs generalizing v with
  | nil =>
    rw [texts, texts, String.intercalate_singleton]
    rfl
  | cons w ws ih =>
    have hrest := ih w
    rw [texts] at hrest
    rw [texts, texts, String.intercalate_cons_cons, String.toList_append, String.toList_append,
      List.append_assoc, List.append_assoc, hrest]
    rfl

theorem chars_list (items : List Value) :
    (list items).chars = '(' :: ((" ".intercalate (texts items)).toList ++ [')']) := by
  rw [chars, text, String.toList_append, String.toList_append]
  rfl

theorem chars_list_nil (rest : List Char) : (list []).chars ++ rest = '(' :: ')' :: rest := rfl

theorem chars_list_cons (v : Value) (vs : List Value) (rest : List Char) :
    (list (v :: vs)).chars ++ rest = '(' :: (v.chars ++ further vs rest) := by
  rw [chars_list, List.cons_append, List.append_assoc, List.singleton_append,
    toList_intercalate_texts]

theorem chars_builtin (op : Builtin) (rest : List Char) :
    (builtin op).chars ++ rest = "<builtin op: ".toList ++ (op.name.toList ++ '>' :: rest) := by
  rw [chars, text, String.toList_append, String.toList_append]
  simp

/-- The type of the plain values whose text begins with a character. -/
def typeOf (first : Char) : String :=
  if isNumeral first || first == 'I' then "number"
  else if first = 'n' then "nil"
  else if first = '<' then "builtin op"
  else if first = '(' then "list"
  else ""

/-- The first character tells the type. -/
theorem Plain.exists_first {v : Value} (h : v.Plain) :
    ∃ first tail, v.chars = first :: tail ∧ typeOf first = v.typeName := by
  cases h with
  | number hx =>
    obtain ⟨first, tail, htext, hfirst⟩ := Number.display_exists_first hx
    refine ⟨first, tail, htext, if_pos ?_⟩
    rcases hfirst with hfirst | rfl
    · rw [hfirst, Bool.true_or]
    · exact Bool.or_true _
  | nil => exact ⟨'n', _, rfl, rfl⟩
  | list hitems => exact ⟨'(', _, chars_list _, rfl⟩
  | builtin op => exact ⟨'<', _, List.append_nil _ ▸ chars_builtin op [], rfl⟩

theorem Plain.typeName_eq {v w : Value} (hv : v.Plain) (hw : w.Plain) {rest rest' : List Char}
    (h : v.chars ++ rest = w.chars ++ rest') : v.typeName = w.typeName := by
  obtain ⟨first, tail, hfirst, htype⟩ := hv.exists_first
  obtain ⟨first', tail', hfirst', htype'⟩ := hw.exists_first
  rw [hfirst, hfirst'] at h
  rw [← htype, ← htype', (List.cons.inj h).1]

/-- No plain value begins with the parenthesis that closes a list. -/
theorem Plain.ne_paren {v : Value} (h : v.Plain) (rest rest' : List Char) :
    v.chars ++ rest ≠ ')' :: rest' := by
  obtain ⟨first, tail, hfirst, htype⟩ := h.exists_first
  have hother : typeOf ')' = "" := by decide
  rw [hfirst]
  rintro ⟨⟩
  rw [hother] at htype
  cases h <;> simp [typeName] at htype

/-! ## Reading a text -/

/-- The rest begins with what may stand behind an element of a list. -/
def Stops (rest : List Char) : Prop := ∀ c ∈ rest.head?, c = ' ' ∨ c = ')'

/-- In front of such rests, the texts of two values are the same only if the values are equal. -/
def ToldApart (v w : Value) : Prop :=
  ∀ {rest rest' : List Char}, Stops rest → Stops rest' → v.chars ++ rest = w.chars ++ rest' →
    equal v w = true ∧ rest = rest'

theorem Stops.not_shown {rest : List Char} (h : Stops rest) :
    ∀ c ∈ rest.head?, isShown c = false := by
  intro c hc
  rcases h c hc with rfl | rfl <;> simp [isShown, isNumeral]

theorem toldApart_number {x y : Float} (hx : x.isNaN = false) (hy : y.isNaN = false) :
    ToldApart (number x) (number y) := by
  intro rest rest' hrest hrest' h
  obtain ⟨htake, hdrop⟩ := takeWhile_dropWhile_of_stop (Number.display_chars hx) hrest.not_shown
  obtain ⟨htake', hdrop'⟩ :=
    takeWhile_dropWhile_of_stop (Number.display_chars hy) hrest'.not_shown
  have htext : (number x).chars = (number y).chars := by
    rw [chars, chars, text, text, ← htake, ← htake']
    exact congrArg _ h
  refine ⟨(Number.beq_iff_display hx hy).mpr (String.toList_inj.mp htext), ?_⟩
  rw [← hdrop, ← hdrop']
  exact congrArg _ h

theorem toldApart_builtin (op op' : Builtin) : ToldApart (builtin op) (builtin op') := by
  intro rest rest' _ _ h
  rw [chars_builtin, chars_builtin] at h
  have hname (op : Builtin) : '>' ∉ op.name.toList := by
    cases op <;> simp [Builtin.name]
  obtain ⟨htake, hdrop⟩ := @Number.takeWhile_dropWhile_ne _ ('>' :: rest) '>' (hname op) (by simp)
  obtain ⟨htake', hdrop'⟩ :=
    @Number.takeWhile_dropWhile_ne _ ('>' :: rest') '>' (hname op') (by simp)
  rw [List.append_cancel_left h] at htake hdrop
  have hnames : op.name = op'.name := String.toList_inj.mp (htake.symm.trans htake')
  have hop : op' = op := by
    have hsome := Builtin.ofName?_name op'
    rw [← hnames, Builtin.ofName?_name] at hsome
    exact (Option.some.inj hsome).symm
  refine ⟨?_, (List.cons.inj (hdrop.symm.trans hdrop')).2⟩
  rw [hop]
  exact beq_self_eq_true op

theorem stops_further (vs : List Value) (rest : List Char) : Stops (further vs rest) := by
  cases vs with
  | nil => rintro c ⟨⟩; exact .inr rfl
  | cons v vs => rintro c ⟨⟩; exact .inl rfl

/-- There are as many further elements as there are blanks in front of them. -/
theorem further_inj {vs ws : List Value} {rest rest' : List Char}
    (hvs : ∀ v ∈ vs, ∀ w ∈ ws, ToldApart v w) (h : further vs rest = further ws rest') :
    equalAll vs ws = true ∧ rest = rest' := by
  induction vs generalizing ws with
  | nil =>
    cases ws with
    | nil => exact ⟨rfl, (List.cons.inj h).2⟩
    | cons w ws => cases h
  | cons v vs ih =>
    cases ws with
    | nil => cases h
    | cons w ws =>
      obtain ⟨hequal, htail⟩ := hvs v (.head _) w (.head _) (stops_further vs rest)
        (stops_further ws rest') (List.cons.inj h).2
      obtain ⟨hequals, hrest⟩ := ih (fun v hv w hw => hvs v (.tail _ hv) w (.tail _ hw)) htail
      exact ⟨by rw [equalAll, hequal, hequals, Bool.true_and], hrest⟩

theorem toldApart_list {vs ws : List Value} (hplain : ∀ v ∈ vs, v.Plain)
    (hplain' : ∀ w ∈ ws, w.Plain) (hvs : ∀ v ∈ vs, ∀ w ∈ ws, ToldApart v w) :
    ToldApart (list vs) (list ws) := by
  intro rest rest' _ _ h
  cases vs with
  | nil =>
    cases ws with
    | nil => exact ⟨rfl, List.append_cancel_left h⟩
    | cons w ws =>
      rw [chars_list_nil, chars_list_cons] at h
      exact absurd (List.cons.inj h).2.symm ((hplain' w (.head _)).ne_paren _ _)
  | cons v vs =>
    cases ws with
    | nil =>
      rw [chars_list_nil, chars_list_cons] at h
      exact absurd (List.cons.inj h).2 ((hplain v (.head _)).ne_paren _ _)
    | cons w ws =>
      rw [chars_list_cons, chars_list_cons] at h
      have hfurther : further (v :: vs) rest = further (w :: ws) rest' :=
        congrArg (' ' :: ·) (List.cons.inj h).2
      exact further_inj hvs hfurther

/-- **Reading.** A plain value is told apart by its text from all plain values that are not equal
to it, whatever follows. -/
theorem Plain.toldApart {v w : Value} (hv : v.Plain) (hw : w.Plain) : ToldApart v w := by
  induction hv generalizing w with
  | number hx =>
    intro rest rest' hrest hrest' h
    have htype := (Plain.number hx).typeName_eq hw h
    cases hw with
    | number hy => exact toldApart_number hx hy hrest hrest' h
    | nil | list | builtin => exact absurd htype (by simp [typeName])
  | nil =>
    intro rest rest' hrest hrest' h
    have htype := Plain.nil.typeName_eq hw h
    cases hw with
    | nil => exact ⟨rfl, List.append_cancel_left h⟩
    | number | list | builtin => exact absurd htype (by simp [typeName])
  | builtin op =>
    intro rest rest' hrest hrest' h
    have htype := (Plain.builtin op).typeName_eq hw h
    cases hw with
    | builtin op' => exact toldApart_builtin op op' hrest hrest' h
    | number | nil | list => exact absurd htype (by simp [typeName])
  | list hitems ih =>
    intro rest rest' hrest hrest' h
    have htype := (Plain.list hitems).typeName_eq hw h
    cases hw with
    | list hitems' =>
      exact toldApart_list hitems hitems' (fun v hv w hw' => ih v hv (hitems' w hw')) hrest hrest' h
    | number | nil | builtin => exact absurd htype (by simp [typeName])

/-- Two values are equal exactly if they are plain and shown alike. -/
theorem equal_iff {v w : Value} : equal v w = true ↔ v.Plain ∧ w.Plain ∧ v.text = w.text := by
  refine ⟨plain_of_equal, fun ⟨hv, hw, htext⟩ => ?_⟩
  have hend : Stops [] := fun c hc => nomatch hc
  refine (hv.toldApart hw hend hend ?_).1
  rw [chars, chars, htext]

end Value

/-- **Equality.** Equality of values is symmetric and transitive. The values that are equal to
themselves are those without closures and NaNs, and of these two are equal exactly if they are
shown by the same text. -/
theorem equal_iff_shown_alike :
    (∀ v w : Value, v.equal w = w.equal v) ∧
      (∀ u v w : Value, u.equal v = true → v.equal w = true → u.equal w = true) ∧
      (∀ v : Value, v.equal v = true ↔ v.Plain) ∧
      ∀ v w : Value, v.Plain → w.Plain → (v.equal w = true ↔ v.text = w.text) := by
  refine ⟨fun v w => ?_, fun u v w huv hvw => ?_, fun v => ?_, fun v w hv hw => ?_⟩
  · rw [Bool.eq_iff_iff, Value.equal_iff, Value.equal_iff]
    exact ⟨fun ⟨hv, hw, h⟩ => ⟨hw, hv, h.symm⟩, fun ⟨hw, hv, h⟩ => ⟨hv, hw, h.symm⟩⟩
  · rw [Value.equal_iff] at huv hvw ⊢
    exact ⟨huv.1, hvw.2.1, huv.2.2.trans hvw.2.2⟩
  · rw [Value.equal_iff]
    exact ⟨fun h => h.1, fun h => ⟨h, h, rfl⟩⟩
  · rw [Value.equal_iff]
    exact ⟨fun h => h.2.2, fun h => ⟨hv, hw, h⟩⟩

/-- Lists that differ in the sign of a zero are equal and shown alike. -/
theorem equal_iff_shown_alike_zeros :
    let v : Value := .list [.number (-0), .list [.nil, .number Float.inf]]
    let w : Value := .list [.number 0, .list [.nil, .number Float.inf]]
    w.equal v = true ∧ v.equal v = true ∧ v.text = w.text := by
  intro v w
  obtain ⟨hsymm, htrans, -, hshown⟩ := equal_iff_shown_alike
  have hvw : v.equal w = true := by decide
  have hwv : w.equal v = true := (hsymm w v).trans hvw
  have hplain (x : Float) (hx : x.isNaN = false) :
      (Value.list [.number x, .list [.nil, .number Float.inf]]).Plain := by
    have hinf : (Value.number Float.inf).Plain := .number (by decide)
    have hinner : (Value.list [.nil, .number Float.inf]).Plain :=
      .list (by simp [Value.Plain.nil, hinf])
    exact .list (by simp [Value.Plain.number hx, hinner])
  have htext := (hshown v w (hplain _ (by decide)) (hplain _ (by decide))).mp hvw
  exact ⟨hwv, htrans v w v hvw hwv, htext⟩

end SnapLisp
