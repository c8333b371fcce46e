import SnapLisp.Form.Json
import SnapLisp.Proofs.Form.Leaves

/-!
# Collapsed spans in a document

`Script.Documented` says entry by entry what the full and the compact document of a script hold, and
`Form.Documented` what those of a node and of all nodes in it hold. The two objects of a node have
its kind and its content in common. The full one has the two places of the span under `start` and
`end`, the compact one has their lines and columns under `@`.

`Json.collapsed` works on any document and knows nothing of forms: wherever an object has two
places under `start` and `end`, it puts one entry under `@` in their stead, with the lines and
columns that the two places give, and leaves everything else as it stands, at every depth.

The documents of every script are such a pair, and the compact one is the full one after that
(`Script.json_collapses`).
-/

namespace SnapLisp

/-! ## What the documents hold -/

/-- The document is an object with these entries, in some order. -/
def Json.HasEntries (j : Json) (entries : List (String × Json)) : Prop :=
  ∃ fields, j = .object fields ∧ fields.Perm entries

/-- The document of a place has its three numbers. -/
def Position.Documented (p : Position) (j : Json) : Prop :=
  j.HasEntries [("offset", .natural p.offset), ("line", .natural p.line),
    ("column", .natural p.column)]

/-- The full and the compact document of a piece of text with this span. Both name its kind, and
have its content under one key. -/
structure Span.Documented (span : Span) (kind key : String) (content content' full compact : Json) :
    Prop where
  /-- The full document has the place of each end. -/
  full : ∃ start stop, span.start.Documented start ∧ span.stop.Documented stop ∧
    full.HasEntries
      [("start", start), ("end", stop), ("kind", .string kind), (key, content)]
  /-- The compact document has the lines and columns of both ends in one text. -/
  compact : compact.HasEntries
    [("@", .string (":".intercalate [toString span.start.line, toString span.start.column,
      toString span.stop.line, toString span.stop.column])), ("kind", .string kind),
      (key, content')]

namespace Form

mutual

/-- The full and the compact document of a form: an object each, of one kind and with one content,
and so on for the forms in it. -/
inductive Documented : Form → Json → Json → Prop
  | symbol {name : String} {span : Span} {full compact : Json}
      (h : span.Documented "symbol" "symbol" (.string name) (.string name) full compact) :
      Documented (.symbol name span) full compact
  | number {value : Float} {span : Span} {full compact : Json} (hfinite : value.isFinite = true)
      (h : span.Documented "number" "number" (.number value) (.number value) full compact) :
      Documented (.number value span) full compact
  /-- An infinity or a NaN has no number in either document. -/
  | notFinite {value : Float} {span : Span} {full compact : Json} (hnot : value.isFinite = false)
      (h : span.Documented "number" "number" .null .null full compact) :
      Documented (.number value span) full compact
  | list {items : List Form} {span : Span} {fulls compacts : List Json} {full compact : Json}
      (hitems : AllDocumented items fulls compacts)
      (h : span.Documented "list" "list" (.array fulls) (.array compacts) full compact) :
      Documented (.list items span) full compact

/-- The full and the compact documents of the forms of a list, one for each in their order. -/
inductive AllDocumented : List Form → List Json → List Json → Prop
  | nil : AllDocumented [] [] []
  | cons {f : Form} {fs : List Form} {full compact : Json} {fulls compacts : List Json}
      (hfirst : Documented f full compact) (hothers : AllDocumented fs fulls compacts) :
      AllDocumented (f :: fs) (full :: fulls) (compact :: compacts)

end

end Form

/-- The full and the compact document of a script. -/
def Script.Documented (s : Script) (full compact : Json) : Prop :=
  ∃ fulls compacts, Form.AllDocumented s.forms fulls compacts ∧
    s.span.Documented "module" "exprs" (.array fulls) (.array compacts) full compact

/-- The entry for a span in a compact document is the lines and columns of its ends. -/
theorem Span.compact_eq (span : Span) : span.compact =
    ":".intercalate [toString span.start.line, toString span.start.column,
      toString span.stop.line, toString span.stop.column] := by
  simp only [compact, Position.text, String.intercalate_cons_cons, String.intercalate_singleton,
    String.append_assoc]

theorem Position.documented_json (p : Position) : p.Documented p.json :=
  ⟨_, rfl, (List.reverse_perm _).symm⟩

/-- In the order of the keys an object has its end first, and its start somewhere behind. -/
theorem Json.perm_start_first (start stop : String × Json) (front back : List (String × Json)) :
    (stop :: (front ++ start :: back)).Perm (start :: stop :: (front ++ back)) := by
  rw [← List.cons_append, ← List.cons_append]
  exact List.perm_middle

/-- Two objects document a span if they have the entries for it, wherever those stand. -/
theorem Span.documented_of_perm {span : Span} {kind key : String} {content content' : Json}
    {fields fields' : List (String × Json)}
    (hfull : fields.Perm [("start", span.start.json), ("end", span.stop.json),
      ("kind", .string kind), (key, content)])
    (hcompact : fields'.Perm [("@", .string span.compact), ("kind", .string kind),
      (key, content')]) :
    span.Documented kind key content content' (.object fields) (.object fields') := by
  rw [compact_eq] at hcompact
  exact ⟨⟨_, _, span.start.documented_json, span.stop.documented_json, fields, rfl, hfull⟩,
    fields', rfl, hcompact⟩

namespace Form

/-- The elements of a list, when the documents of each of them are such a pair. -/
theorem allDocumented_jsonAll {items : List Form}
    (h : ∀ item ∈ items, item.Documented item.json item.compactJson) :
    AllDocumented items (jsonAll items) (compactJsonAll items) := by
  induction items with
  | nil => exact .nil
  | cons f fs ih =>
    obtain ⟨hfirst, hothers⟩ := List.forall_mem_cons.mp h
    exact .cons hfirst (ih hothers)

/-- The documents of a node are such a pair, and so are those of all nodes in it. -/
theorem documented_json (f : Form) : f.Documented f.json f.compactJson := by
  induction f using Form.induction with
  | symbol name span =>
    rw [json, compactJson]
    exact .symbol (Span.documented_of_perm (Json.perm_start_first _ _ [_] [_]) (.refl _))
  | number value span =>
    cases hfinite : value.isFinite with
    | true =>
      have hcontent : Json.ofFloat value = .number value := if_pos hfinite
      rw [json, compactJson, hcontent]
      exact .number hfinite
        (Span.documented_of_perm (Json.perm_start_first _ _ [_, _] []) (.refl _))
    | false =>
      have hcontent : Json.ofFloat value = .null := if_neg (by simp [hfinite])
      rw [json, compactJson, hcontent]
      exact .notFinite hfinite
        (Span.documented_of_perm (Json.perm_start_first _ _ [_, _] []) (.refl _))
  | list items span ih =>
    rw [json, compactJson]
    exact .list (allDocumented_jsonAll ih)
      (Span.documented_of_perm (Json.perm_start_first _ _ [_, _] []) (.refl _))

end Form

theorem Script.documented_json (s : Script) : s.Documented (s.json false) (s.json true) := by
  refine ⟨_, _, Form.allDocumented_jsonAll fun item _ => item.documented_json, ?_⟩
  exact Span.documented_of_perm
    ((Json.perm_start_first _ _ [_, _] []).trans (.cons _ (.cons _ (.swap ..))))
    (.cons _ (.swap ..))

/-! ## Collapsing -/

namespace Json

/-- Line and column in the document of a place. -/
def lineColumn? : Json → Option String
  | .object fields =>
    match fields.lookup "line", fields.lookup "column" with
    | some (.natural line), some (.natural column) =>
      some (toString line ++ ":" ++ toString column)
    | _, _ => none
  | _ => none

/-- The text for the span between the places under `start` and `end`, when there are both. -/
def spanText? (fields : List (String × Json)) : Option String := do
  let start ← (← fields.lookup "start").lineColumn?
  let stop ← (← fields.lookup "end").lineColumn?
  return start ++ ":" ++ stop

/-- The fields of an object with one entry under `@` for those under `start` and `end`. It leads
the object, since `@` comes before every letter. -/
def collapse (fields : List (String × Json)) : List (String × Json) :=
  match spanText? fields with
  | some text =>
    ("@", .string text) :: fields.filter fun field => field.1 ≠ "start" ∧ field.1 ≠ "end"
  | none => fields

mutual

/-- The document with the span of every object collapsed, at every depth. -/
def collapsed : Json → Json
  | .array items => .array (collapsedItems items)
  | .object fields => .object (collapse (collapsedFields fields))
  | j => j

/-- The elements of an array with collapsed spans. -/
def collapsedItems : List Json → List Json
  | [] => []
  | j :: js => collapsed j :: collapsedItems js

/-- The fields of an object with collapsed spans in their values. -/
def collapsedFields : List (String × Json) → List (String × Json)
  | [] => []
  | (key, j) :: fields => (key, collapsed j) :: collapsedFields fields

end

@[simp] theorem collapsed_string (s : String) : (string s).collapsed = .string s := by
  simp [collapsed]

@[simp] theorem collapsed_ofFloat (x : Float) : (ofFloat x).collapsed = .ofFloat x := by
  unfold ofFloat
  split <;> simp [collapsed]

end Json

/-- The document of a place gives the line and column that its text does. -/
theorem Position.lineColumn?_json (p : Position) : p.json.lineColumn? = some p.text := by
  simp [Position.json, Json.lineColumn?, Position.text, List.lookup_cons]

/-- The document of a place has no span to collapse. -/
@[simp] theorem Position.collapsed_json (p : Position) : p.json.collapsed = p.json := by
  simp [Position.json, Json.collapsed, Json.collapsedFields, Json.collapse, Json.spanText?,
    List.lookup_cons]

/-- An object with both ends of a span gets the compact form of that span. -/
theorem Json.collapse_of_span {fields : List (String × Json)} (span : Span)
    (start : fields.lookup "start" = some span.start.json)
    (stop : fields.lookup "end" = some span.stop.json) :
    collapse fields = ("@", .string span.compact) ::
      fields.filter fun field => field.1 ≠ "start" ∧ field.1 ≠ "end" := by
  have text : spanText? fields = some span.compact := by
    simp [spanText?, start, stop, Position.lineColumn?_json, Span.compact]
  simp only [collapse, text]

namespace Form

/-- The elements of a list, when each of them satisfies the law for nodes. -/
theorem collapsedItems_jsonAll {items : List Form}
    (h : ∀ item ∈ items, item.json.collapsed = item.compactJson) :
    Json.collapsedItems (jsonAll items) = compactJsonAll items := by
  induction items with
  | nil => rfl
  | cons f fs ih =>
    obtain ⟨first, others⟩ := List.forall_mem_cons.mp h
    rw [jsonAll, compactJsonAll, Json.collapsedItems, first, ih others]

/-- The compact document of a node is its full one with collapsed spans. -/
theorem collapsed_json (f : Form) : f.json.collapsed = f.compactJson := by
  induction f using Form.induction with
  | symbol name span =>
    simp only [json, Json.collapsed, Json.collapsedFields, Position.collapsed_json]
    rw [Json.collapse_of_span span rfl rfl]
    simp [compactJson]
  | number value span =>
    simp only [json, Json.collapsed, Json.collapsedFields, Position.collapsed_json]
    rw [Json.collapse_of_span span rfl rfl]
    simp [compactJson]
  | list items span ih =>
    simp only [json, Json.collapsed, Json.collapsedFields, Position.collapsed_json,
      collapsedItems_jsonAll ih]
    rw [Json.collapse_of_span span rfl rfl]
    simp [compactJson]

end Form

/-- Collapsing the spans of the full document of a script gives the compact one. -/
theorem Script.collapsed_json (s : Script) : (s.json false).collapsed = s.json true := by
  simp only [json, Bool.false_eq_true, if_true, if_false, Json.collapsed, Json.collapsedFields,
    Position.collapsed_json, Form.collapsedItems_jsonAll fun item _ => item.collapsed_json]
  rw [Json.collapse_of_span s.span rfl rfl]
  simp

/-- **Compact documents.** For every script, built by the parser or by hand, the two documents hold
the same kinds and contents in every object, with `null` for a number that is not finite. The full
one has the two places of the span in every object, and the compact document is the full one with
these collapsed to one entry, and nothing else changed. -/
theorem Script.json_collapses (s : Script) :
    s.Documented (s.json false) (s.json true) ∧ s.json true = (s.json false).collapsed :=
  ⟨s.documented_json, s.collapsed_json.symm⟩

end SnapLisp
