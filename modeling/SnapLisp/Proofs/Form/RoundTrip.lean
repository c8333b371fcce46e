import SnapLisp.Proofs.Form.Parsing

/-!
# Which scripts their text gives back

A script is read back from its text, as the same tree, exactly if it is canonical; and every script
that is read from some text is canonical (`Script.reads_back_iff_canonical`).

A tree read back is canonical and has the same symbols, so the symbols of the script are lexemes.
Its numbers only compare equal to those of the script, which leaves one number that is not natural:
negative zero. Its text is a lexeme, so it comes back as a symbol (`Form.respelled`).
-/

namespace SnapLisp

open Number

/-! ## Forms with the same text -/

theorem isLexeme_negativeZero : IsLexeme "-0" := by
  refine ⟨45, [48], rfl, rfl, fun b hb => ?_⟩
  rw [List.mem_singleton.mp hb]
  rfl

namespace Form

mutual

/-- The form as its text is read: negative zero is spelled like a symbol. -/
def respelled : Form → Form
  | .symbol name span => .symbol name span
  | .number value span =>
    if Number.isNegativeZero value then .symbol "-0" span else .number value span
  | .list items span => .list (respelledAll items) span

/-- The forms of a list as their texts are read. -/
def respelledAll : List Form → List Form
  | [] => []
  | f :: fs => respelled f :: respelledAll fs

end

theorem respelledAll_eq_map (forms : List Form) : respelledAll forms = forms.map respelled := by
  induction forms with
  | nil => rfl
  | cons f fs ih => rw [respelledAll, ih, List.map_cons]

theorem texts_eq_map (forms : List Form) : texts forms = forms.map text := by
  induction forms with
  | nil => rfl
  | cons f fs ih => rw [texts, ih, List.map_cons]

theorem texts_respelledAll {forms : List Form} (h : ∀ f ∈ forms, f.respelled.text = f.text) :
    texts (respelledAll forms) = texts forms := by
  rw [texts_eq_map, texts_eq_map, respelledAll_eq_map, List.map_map]
  exact List.map_congr_left h

theorem text_respelled (f : Form) : f.respelled.text = f.text := by
  induction f using induction with
  | symbol name span => rfl
  | number value span =>
    by_cases hzero : isNegativeZero value = true
    · rw [respelled, if_pos hzero, text, text, text_of_isNegativeZero hzero]
    · rw [respelled, if_neg hzero]
  | list items span ih => rw [respelled, text, text, texts_respelledAll ih]

/-! ## Forms that are the same tree -/

theorem sameAll_of_bareAll_eq {gs fs : List Form} (h : bareAll gs = bareAll fs)
    (hforms : ∀ f ∈ fs, ∀ g, bare g = bare f → same g f = true) : sameAll gs fs = true := by
  induction fs generalizing gs with
  | nil =>
    cases gs with
    | nil => rfl
    | cons g gs => cases h
  | cons f fs ih =>
    cases gs with
    | nil => cases h
    | cons g gs =>
      rw [bareAll, bareAll] at h
      obtain ⟨hhead, htail⟩ := List.cons.inj h
      rw [sameAll, hforms f (.head _) g hhead, ih htail fun f' hf' => hforms f' (.tail _ hf')]
      rfl

/-- Forms that differ in their spans only are the same tree, unless they hold a NaN. -/
theorem same_of_bare_eq (f : Form) : f.Canonical → ∀ g, bare g = bare f → same g f = true := by
  induction f using induction with
  | symbol name span =>
    intro _ g hbare
    cases g with
    | symbol name' span' =>
      cases hbare
      exact beq_self_eq_true name
    | number value span' => cases hbare
    | list items span' => cases hbare
  | number value span =>
    intro hf g hbare
    cases g with
    | symbol name span' => cases hbare
    | number value' span' =>
      cases hbare
      exact (canonical_number.mp hf).beq_self
    | list items span' => cases hbare
  | list items span ih =>
    intro hf g hbare
    cases g with
    | symbol name span' => cases hbare
    | number value span' => cases hbare
    | list items' span' =>
      rw [bare, bare] at hbare
      injection hbare with hitems
      exact sameAll_of_bareAll_eq hitems fun item hitem =>
        ih item hitem (canonical_list.mp hf item hitem)

/-! What is the same tree as a symbol, a number or a list. -/

theorem exists_of_same_symbol {g : Form} {name : String} {span : Span}
    (h : same g (.symbol name span) = true) : ∃ span', g = .symbol name span' := by
  cases g with
  | symbol name' span' => exact ⟨span', by rw [eq_of_beq h]⟩
  | number value span' => cases h
  | list items span' => cases h

theorem exists_of_same_number {g : Form} {value : Float} {span : Span}
    (h : same g (.number value span) = true) :
    ∃ value' span', g = .number value' span' ∧ (value' == value) = true := by
  cases g with
  | symbol name span' => cases h
  | number value' span' => exact ⟨value', span', rfl, h⟩
  | list items span' => cases h

theorem exists_of_same_list {g : Form} {items : List Form} {span : Span}
    (h : same g (.list items span) = true) :
    ∃ items' span', g = .list items' span' ∧ sameAll items' items = true := by
  cases g with
  | symbol name span' => cases h
  | number value span' => cases h
  | list items' span' => exact ⟨items', span', rfl, h⟩

/-- Each tree of a list has its like in the other list. -/
theorem exists_same_of_mem {gs fs : List Form} (h : sameAll gs fs = true) {f : Form} (hf : f ∈ fs) :
    ∃ g ∈ gs, same g f = true := by
  induction fs generalizing gs with
  | nil => cases hf
  | cons f' fs ih =>
    cases gs with
    | nil => cases h
    | cons g gs =>
      rw [sameAll, Bool.and_eq_true] at h
      rcases List.mem_cons.mp hf with rfl | hf
      · exact ⟨g, .head _, h.1⟩
      · obtain ⟨g', hg', hsame⟩ := ih h.2 hf
        exact ⟨g', .tail _ hg', hsame⟩

theorem canonical_respelledAll {gs fs : List Form} (hsame : sameAll gs fs = true)
    (hgs : ∀ g ∈ gs, g.Canonical)
    (hforms : ∀ f ∈ fs, ∀ g : Form, g.Canonical → same g f = true → f.respelled.Canonical) :
    ∀ f ∈ respelledAll fs, f.Canonical := by
  intro f hf
  rw [respelledAll_eq_map] at hf
  obtain ⟨f', hf', rfl⟩ := List.mem_map.mp hf
  obtain ⟨g, hg, hsame'⟩ := exists_same_of_mem hsame hf'
  exact hforms f' hf' g (hgs g hg) hsame'

/-- A form that is the same tree as a canonical one is canonical but for its negative zeros. -/
theorem canonical_respelled (f : Form) :
    ∀ g : Form, g.Canonical → same g f = true → f.respelled.Canonical := by
  induction f using induction with
  | symbol name span =>
    intro g hg hsame
    obtain ⟨span', rfl⟩ := exists_of_same_symbol hsame
    exact canonical_symbol.mpr (canonical_symbol.mp hg)
  | number value span =>
    intro g hg hsame
    obtain ⟨value', span', rfl, hvalue⟩ := exists_of_same_number hsame
    rw [respelled]
    by_cases hzero : isNegativeZero value = true
    · rw [if_pos hzero]
      exact canonical_symbol.mpr isLexeme_negativeZero
    · rw [if_neg hzero]
      have hwhole : Whole value' := canonical_number.mp hg
      exact canonical_number.mpr (hwhole.of_beq hvalue (Bool.eq_false_iff.mpr hzero))
  | list items span ih =>
    intro g hg hsame
    obtain ⟨items', span', rfl, hitems⟩ := exists_of_same_list hsame
    rw [respelled, canonical_list]
    exact canonical_respelledAll hitems (canonical_list.mp hg) ih

theorem respelledAll_eq_self {gs fs : List Form} (hsame : sameAll gs fs = true)
    (hbare : bareAll gs = bareAll (respelledAll fs))
    (hforms : ∀ f ∈ fs, ∀ g, same g f = true → bare g = bare f.respelled → f.respelled = f) :
    respelledAll fs = fs := by
  induction fs generalizing gs with
  | nil => rfl
  | cons f fs ih =>
    cases gs with
    | nil => cases hsame
    | cons g gs =>
      rw [sameAll, Bool.and_eq_true] at hsame
      rw [respelledAll, bareAll, bareAll] at hbare
      obtain ⟨hhead, htail⟩ := List.cons.inj hbare
      rw [respelledAll, hforms f (.head _) g hsame.1 hhead,
        ih hsame.2 htail fun f' hf' => hforms f' (.tail _ hf')]

/-- A form that comes back as the same tree has no negative zero: it would be a symbol there. -/
theorem respelled_eq_self (f : Form) :
    ∀ g, same g f = true → bare g = bare f.respelled → f.respelled = f := by
  induction f using induction with
  | symbol name span => exact fun _ _ _ => rfl
  | number value span =>
    intro g hsame hbare
    obtain ⟨value', span', rfl, -⟩ := exists_of_same_number hsame
    by_cases hzero : isNegativeZero value = true
    · rw [respelled, if_pos hzero] at hbare
      cases hbare
    · rw [respelled, if_neg hzero]
  | list items span ih =>
    intro g hsame hbare
    obtain ⟨items', span', rfl, hitems⟩ := exists_of_same_list hsame
    rw [respelled, bare, bare] at hbare
    injection hbare with hbareAll
    rw [respelled, respelledAll_eq_self hitems hbareAll ih]

end Form

/-! ## Scripts -/

namespace Script

/-- The script as its text is read. -/
def respelled (s : Script) : Script := ⟨Form.respelledAll s.forms, s.span⟩

theorem text_respelled (s : Script) : s.respelled.text = s.text := by
  have htexts : Form.texts (Form.respelledAll s.forms) = Form.texts s.forms :=
    Form.texts_respelledAll fun f _ => f.text_respelled
  rw [text, text, respelled, htexts]

/-- Only a canonical script comes back from its text. -/
theorem canonical_of_same {s s' : Script} (h : ofString s.text = .ok s')
    (hsame : s'.same s = true) : s.Canonical := by
  have hread : s'.Canonical := canonical_of_ofBytes h
  have hrespelled : s.respelled.Canonical :=
    Form.canonical_respelledAll hsame hread fun f _ => f.canonical_respelled
  -- The two scripts have one text, so what is read from it is either of them.
  obtain ⟨s'', hs'', hbare⟩ := ofString_text hrespelled
  rw [text_respelled, h] at hs''
  cases hs''
  have hself : s.respelled = s :=
    congrArg (Script.mk · s.span)
      (Form.respelledAll_eq_self hsame hbare fun f _ => f.respelled_eq_self)
  rwa [hself] at hrespelled

/-- **Round trip.** A script is read back from its text, as the same tree, exactly if all its
symbols are lexemes and all its numbers natural numbers. Every script that is read from some text is
of this kind, and it comes back bit for bit, spans apart. -/
theorem reads_back_iff_canonical :
    (∀ s : Script, (∃ s', ofString s.text = .ok s' ∧ s'.same s = true) ↔ s.Canonical) ∧
      ∀ source s, ofString source = .ok s → s.Canonical ∧
        ∃ s', ofString s.text = .ok s' ∧ Form.bareAll s'.forms = Form.bareAll s.forms := by
  refine ⟨fun s => ⟨?_, fun h => ?_⟩, fun source s h => ?_⟩
  · rintro ⟨s', h, hsame⟩
    exact canonical_of_same h hsame
  · obtain ⟨s', hs', hbare⟩ := ofString_text h
    exact ⟨s', hs', Form.sameAll_of_bareAll_eq hbare fun f hf => f.same_of_bare_eq (h f hf)⟩
  · have hcanonical := canonical_of_ofBytes h
    exact ⟨hcanonical, ofString_text hcanonical⟩

/-- The blanks of the source are not kept, the trees are. -/
theorem reads_back_iff_canonical_spaced :
    ∃ s, ofString " (f  12\n)x" = .ok s ∧ s.Canonical ∧
      ∃ s', ofString s.text = .ok s' ∧ Form.bareAll s'.forms = Form.bareAll s.forms := by
  have hread : (ofString " (f  12\n)x").isOk = true := by decide +kernel
  cases hs : ofString " (f  12\n)x" with
  | error e =>
    rw [hs] at hread
    cases hread
  | ok s => exact ⟨s, rfl, reads_back_iff_canonical.2 _ s hs⟩

end Script

end SnapLisp
