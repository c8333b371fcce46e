import SnapLisp.Form.Parser

/-!
# Forms inside of forms

`Script.HasAt` finds a form at whatever depth of a script and counts how deep that is: a top-level
form is on level 1, and the elements of a list are one level below the list. `Form.InSource` and
`Form.StandsIn` say the same of the script that a source text spells, and of several texts.
-/

namespace SnapLisp

/-- The form stands in the script, on the given level of nesting. -/
inductive Script.HasAt (s : Script) : Form → Nat → Prop where
  | top {form : Form} : form ∈ s.forms → HasAt s form 1
  | element {items : List Form} {span : Span} {form : Form} {level : Nat} :
      HasAt s (.list items span) level → form ∈ items → HasAt s form (level + 1)

/-- The form stands in the script that the source text spells. -/
def Form.InSource (source : String) (form : Form) (level : Nat) : Prop :=
  ∃ s, Script.ofString source = .ok s ∧ s.HasAt form level

/-- The form stands in one of the source texts. -/
def Form.StandsIn (sources : List String) (form : Form) (level : Nat) : Prop :=
  ∃ source ∈ sources, form.InSource source level

theorem Form.InSource.element {source : String} {items : List Form} {span : Span} {form : Form}
    {level : Nat} (h : InSource source (.list items span) level) (hform : form ∈ items) :
    InSource source form (level + 1) := by
  obtain ⟨s, hs, hlist⟩ := h
  exact ⟨s, hs, hlist.element hform⟩

namespace Form.StandsIn

variable {sources : List String} {form : Form} {items : List Form} {span : Span} {level : Nat}

theorem element (h : StandsIn sources (.list items span) level) (hform : form ∈ items) :
    StandsIn sources form (level + 1) := by
  obtain ⟨source, hsource, hlist⟩ := h
  exact ⟨source, hsource, hlist.element hform⟩

theorem top {source : String} {s : Script} (hsource : source ∈ sources)
    (hs : Script.ofString source = .ok s) (hform : form ∈ s.forms) : StandsIn sources form 1 :=
  ⟨source, hsource, s, hs, .top hform⟩

end Form.StandsIn

end SnapLisp
