import Mathlib.Data.List.Forall2
import SnapLisp.Proofs.Evaluation.Ensures
import SnapLisp.Proofs.Evaluation.FrameLaw
import SnapLisp.Proofs.Form.Nesting
import SnapLisp.Proofs.Value.Contents

/-!
# Where closures and errors come from

Evaluation makes nothing up. A closure has the parameters and the body of a list that stands in one
of the source texts (`Closure.MadeIn`), and an error is about a form of one of them
(`ScriptError.Explained`).

The scope of a closure has no more frames than the list is deep in its source. What carries this is
that a form on level `n` is only ever evaluated in at most `n` frames: the elements of a list are
one level below it, and a call of the closure that the list makes adds one frame to its scope.
-/

namespace SnapLisp

/-! ## Closures -/

/-- The parameters that a form names: a symbol names one, and a list of symbols all of them. -/
inductive Form.Names : Form → List String → Prop where
  | symbol (name : String) (span : Span) : Names (.symbol name span) [name]
  | list {items : List Form} {names : List String} (span : Span) :
      List.Forall₂ (fun item name => ∃ span, item = .symbol name span) items names →
        Names (.list items span) names

/-- A list of at least three elements in one of the source texts gives the closure: its second
element names the parameters, those behind it are the body, and the scope has at most as many frames
as the list is deep. -/
def Closure.MadeIn (sources : List String) (params : List String) (body : List Form) (scope : Env) :
    Prop :=
  ∃ head spec span level, Form.StandsIn sources (.list (head :: spec :: body) span) level ∧
    body ≠ [] ∧ spec.Names params ∧ 1 ≤ scope.depth ∧ scope.depth ≤ level

/-! ## Errors -/

/-- The error is about the form, which stands in the source text, and its span is that of the
form. -/
inductive ScriptError.Blames (source : String) : ScriptError → Form → Prop where
  | unbound {name : String} {span : Span} {level : Nat} :
      Form.InSource source (.symbol name span) level →
        Blames source (.unbound name span) (.symbol name span)
  | illFormed {span : Span} {level : Nat} :
      Form.InSource source (.list [] span) level →
        Blames source (.illFormed (some span)) (.list [] span)
  | notProcedure {head : Form} {args : List Form} {span : Span} {level : Nat} :
      Form.InSource source (.list (head :: args) span) level →
        Blames source (.notProcedure (some head.span)) head
  /-- A number stands where the parameters should. -/
  | parameters {head : Form} {value : Float} {numberSpan : Span} {body : List Form} {span : Span}
      {level : Nat} :
      Form.InSource source (.list (head :: .number value numberSpan :: body) span) level →
        Blames source
          (.illFormedParameter "identifier or identifier list expected" numberSpan)
          (.number value numberSpan)
  /-- Among the parameters stands something else than a symbol. -/
  | parameter {head item : Form} {items body : List Form} {itemsSpan span : Span} {level : Nat} :
      Form.InSource source (.list (head :: .list items itemsSpan :: body) span) level →
        item ∈ items → (∀ name span, item ≠ .symbol name span) →
          Blames source (.illFormedParameter "expected symbol" item.span) item
  | special {op : Builtin} {head : Form} {args : List Form} {span : Span} {level : Nat} :
      op = .define ∨ op = .lambda → Form.InSource source (.list (head :: args) span) level →
        Blames source (.illFormedSpecial op.name (some span)) (.list (head :: args) span)
  /-- Something else than a symbol is to be declared. -/
  | target {head target value : Form} {span : Span} {level : Nat} :
      Form.InSource source (.list [head, target, value] span) level →
        (∀ name span, target ≠ .symbol name span) →
          Blames source (.illFormedSpecial Builtin.define.name (some target.span)) target

/-- The error has no span. A name that is declared twice is the second one of three elements of a
list in one of the source texts. -/
inductive ScriptError.Unplaced (sources : List String) : ScriptError → Prop where
  | wrongArity (expected : String) (got : Nat) : Unplaced sources (.wrongArity expected got)
  | notNumber (got : String) : Unplaced sources (.notNumber got)
  | redeclared {head value : Form} {name : String} {nameSpan span : Span} {level : Nat} :
      Form.StandsIn sources (.list [head, .symbol name nameSpan, value] span) level →
        Unplaced sources (.redeclared name)

/-- The source texts have a form that the error is about, or it has no span. -/
inductive ScriptError.Explained (sources : List String) (e : ScriptError) : Prop where
  | blames {source : String} {form : Form} :
      source ∈ sources → e.Blames source form → Explained sources e
  | unplaced : e.Unplaced sources → Explained sources e

/-! ## Parameters -/

namespace Builtin

theorem parameter_cases (f : Form) :
    (∃ name span, f = .symbol name span ∧ parameter f = .ok name) ∨
      (∀ name span, f ≠ .symbol name span) ∧
        parameter f = .error (.illFormedParameter "expected symbol" f.span) := by
  cases f with
  | symbol name span => exact .inl ⟨name, span, rfl, rfl⟩
  | number | list => exact .inr ⟨nofun, rfl⟩

/-- Symbols are the parameters, or one of the forms is none. -/
theorem parameterList_cases (fs : List Form) :
    (∃ names, parameterList fs = .ok names ∧
        List.Forall₂ (fun f name => ∃ span, f = .symbol name span) fs names) ∨
      ∃ f ∈ fs, (∀ name span, f ≠ .symbol name span) ∧
        parameterList fs = .error (.illFormedParameter "expected symbol" f.span) := by
  induction fs with
  | nil => exact .inl ⟨[], rfl, .nil⟩
  | cons f rest ih =>
    rcases parameter_cases f with ⟨name, span, rfl, hname⟩ | ⟨hf, herror⟩
    · rcases ih with ⟨names, hnames, hsymbols⟩ | ⟨g, hg, hne, herror⟩
      · refine .inl ⟨name :: names, ?_, .cons ⟨span, rfl⟩ hsymbols⟩
        rw [parameterList, hname, hnames]
        rfl
      · refine .inr ⟨g, .tail _ hg, hne, ?_⟩
        rw [parameterList, hname, herror]
        rfl
    · refine .inr ⟨f, .head _, hf, ?_⟩
      rw [parameterList, herror]
      rfl

variable {sources : List String} {level : Nat} {head spec : Form} {args : List Form} {span : Span}

theorem names_of_parameters {names : List String} (h : parameters spec = .ok names) :
    spec.Names names := by
  cases spec with
  | symbol name span => cases h; exact .symbol name span
  | number => cases h
  | list items span =>
    rcases parameterList_cases items with ⟨names', hnames, hsymbols⟩ | ⟨_, _, _, herror⟩
    · cases hnames.symm.trans h
      exact .list span hsymbols
    · cases herror.symm.trans h

theorem explained_of_parameters
    (hform : Form.StandsIn sources (.list (head :: spec :: args) span) level) {e : ScriptError}
    (h : parameters spec = .error e) : e.Explained sources := by
  obtain ⟨source, hsource, hlist⟩ := hform
  cases spec with
  | symbol => cases h
  | number => cases h; exact .blames hsource (.parameters hlist)
  | list items span =>
    rcases parameterList_cases items with ⟨_, hnames, _⟩ | ⟨item, hitem, hne, herror⟩
    · cases hnames.symm.trans h
    · cases herror.symm.trans h
      exact .blames hsource (.parameter hlist hitem hne)

/-! ## Plans -/

/-- A special form that lacks a part is to blame itself. -/
theorem explained_special {op : Builtin} (hop : op = .define ∨ op = .lambda)
    (hform : Form.StandsIn sources (.list (head :: args) span) level) :
    (ScriptError.illFormedSpecial op.name (some span)).Explained sources := by
  obtain ⟨source, hsource, hlist⟩ := hform
  exact .blames hsource (.special hop hlist)

theorem explained_of_plan (op : Builtin)
    (hform : Form.StandsIn sources (.list (head :: args) span) level) {e : ScriptError}
    (h : op.plan span args = .error e) : e.Explained sources := by
  cases op with
  | define =>
    simp only [plan] at h
    split at h
    · cases h
    · rename_i target value hne
      cases h
      obtain ⟨source, hsource, hlist⟩ := hform
      exact .blames hsource (.target hlist fun name span heq => hne name span heq)
    · cases h
      exact explained_special (.inl rfl) hform
  | lambda =>
    simp only [plan] at h
    split at h
    · rename_i spec first rest
      cases hspec : parameters spec with
      | ok names => rw [hspec] at h; cases h
      | error e' =>
        rw [hspec] at h
        cases h
        exact explained_of_parameters hform hspec
    · cases h
      exact explained_special (.inr rfl) hform
  | list | print | add | subtract | multiply | divide => cases h

end Builtin

/-! ## The invariant -/

/-- Every closure in the value is made by a list of the sources. -/
abbrev Value.Traced (sources : List String) (v : Value) : Prop :=
  v.Closures (Closure.MadeIn sources)

/-- The environment has the given number of frames, and every closure in it is made by a list of the
sources. -/
structure Env.Traced (sources : List String) (depth : Nat) (env : Env) : Prop where
  depth : env.depth = depth
  closures : env.All (Value.Traced sources)

/-- What is done keeps the invariant, and it ends with a value whose closures are made by the
sources, or with an error about them. -/
abbrev Action.Traces (sources : List String) (depth : Nat) (act : Action Value) : Prop :=
  act.Ensures (Env.Traced sources depth) (Value.Traced sources) (ScriptError.Explained sources)

theorem Scope.depth_callEnv (scope : Env) (params : List String) (values : List Value) :
    (Closure.callEnv scope params values).depth = scope.depth + 1 := by
  simp [depth, frames, Closure.callEnv, outer_assignAll, push]

namespace Env.Traced

variable {sources : List String} {depth : Nat} {env : Env}

theorem assign (h : Traced sources depth env) (name : String) {value : Value}
    (hvalue : value.Traced sources) : Traced sources depth (env.assign name value) :=
  ⟨h.depth, h.closures.assign name hvalue⟩

theorem callEnv {params : List String} {body : List Form} {scope : Env}
    (h : (Value.closure params body scope).Traced sources) {values : List Value}
    (hvalues : ∀ v ∈ values, v.Traced sources) :
    Traced sources (scope.depth + 1) (Closure.callEnv scope params values) :=
  ⟨Scope.depth_callEnv scope params values, .callEnv h.of_closure.2 params hvalues⟩

end Env.Traced

/-- The body of a closure stands deep enough for the frames of its calls. -/
theorem Closure.MadeIn.body_standsIn {sources : List String} {params : List String}
    {body : List Form} {scope : Env} (h : MadeIn sources params body scope) :
    ∃ level, scope.depth + 1 ≤ level ∧ ∀ form ∈ body, Form.StandsIn sources form level := by
  obtain ⟨head, spec, span, level, hlist, -, -, -, hdepth⟩ := h
  exact ⟨level + 1, Nat.succ_le_succ hdepth, fun form hform =>
    hlist.element (.tail _ (.tail _ hform))⟩

/-- What is true of a conclusion that comes from an application in the sources, where the
environment has the given number of frames. -/
inductive Conclusion.Traced (sources : List String) (depth : Nat) : Conclusion → Prop where
  | call {params : List String} {body : List Form} {scope : Env} :
      (Value.closure params body scope).Traced sources →
        Traced sources depth (.call params body scope)
  | list : Traced sources depth .list
  | print : Traced sources depth .print
  | arithmetic {compute : List Float → Except ScriptError Float} :
      (∀ xs e, compute xs = .error e → e.Explained sources) →
        Traced sources depth (.arithmetic compute)
  | declare {name : String} :
      (ScriptError.redeclared name).Explained sources → Traced sources depth (.declare name)
  | close {params : List String} {body : List Form} :
      (∀ scope : Env, scope.depth = depth → Closure.MadeIn sources params body scope) →
        Traced sources depth (.close params body)

section Applications

variable {sources : List String} {level depth : Nat} {head : Form} {args : List Form} {span : Span}

theorem Builtin.traced_of_plan (op : Builtin)
    (hform : Form.StandsIn sources (.list (head :: args) span) level) (hdepth : depth ≤ level)
    (hpos : 1 ≤ depth) {p : Plan} (h : op.plan span args = .ok p) :
    p.conclusion.Traced sources depth := by
  cases op with
  | define =>
    simp only [plan] at h
    split at h
    · cases h
      exact .declare (.unplaced (.redeclared hform))
    · cases h
    · cases h
  | lambda =>
    simp only [plan] at h
    split at h
    · rename_i spec first rest
      cases hspec : parameters spec with
      | error e => rw [hspec] at h; cases h
      | ok names =>
        rw [hspec] at h
        cases h
        refine .close fun scope hscope => ?_
        exact ⟨head, spec, span, level, hform, List.cons_ne_nil _ _, names_of_parameters hspec,
          by omega, by omega⟩
    · cases h
  | list => cases h; exact .list
  | print => cases h; exact .print
  | add | multiply => cases h; exact .arithmetic fun _ _ he => by cases he
  | subtract | divide =>
    cases h
    refine .arithmetic fun xs e he => ?_
    rw [reduce_eq_error he]
    exact .unplaced (.wrongArity _ _)

theorem Value.traced_of_plan {f : Value} (hf : f.Traced sources)
    (hform : Form.StandsIn sources (.list (head :: args) span) level) (hdepth : depth ≤ level)
    (hpos : 1 ≤ depth) {p : Plan} (h : f.plan head.span span args = .ok p) :
    p.conclusion.Traced sources depth := by
  cases f with
  | builtin op => exact op.traced_of_plan hform hdepth hpos h
  | number | nil | list => cases h
  | closure params body scope =>
    simp only [plan] at h
    split at h <;> cases h
    exact .call hf

theorem Value.explained_of_plan (f : Value)
    (hform : Form.StandsIn sources (.list (head :: args) span) level) {e : ScriptError}
    (h : f.plan head.span span args = .error e) : e.Explained sources := by
  cases f with
  | builtin op => exact op.explained_of_plan hform h
  | number | nil | list =>
    cases h
    obtain ⟨source, hsource, hlist⟩ := hform
    exact .blames hsource (.notProcedure hlist)
  | closure params body scope =>
    simp only [plan] at h
    split at h <;> cases h
    exact .unplaced (.wrongArity _ _)

end Applications

/-! ## Evaluation -/

section Evaluation

variable {sources : List String} {fuel level depth : Nat}

theorem Conclusion.Traced.run {evaluate : Evaluator} {c : Conclusion}
    (hc : c.Traced sources depth)
    (hbody : ∀ form level depth, Form.StandsIn sources form level → 1 ≤ depth → depth ≤ level →
      (evaluate form).Traces sources depth)
    {values : List Value} (hvalues : ∀ v ∈ values, v.Traced sources) :
    (c.run evaluate values).Traces sources depth := by
  cases hc with
  | call hclosure =>
    obtain ⟨level, hlevel, hforms⟩ := hclosure.of_closure.1.body_standsIn
    exact .within (Env.Traced.callEnv hclosure hvalues) (.last (fun form hform =>
      hbody form level _ (hforms form hform) (Nat.succ_pos _) hlevel) .nil)
  | list => exact .pure (.list hvalues)
  | print => exact run_print_ensures .nil
  | arithmetic hcompute =>
    exact run_arithmetic_ensures .number (fun got => .unplaced (.notNumber got)) hcompute
  | declare herror =>
    refine run_declare_ensures .nil (fun env henv => henv.assign _ ?_) herror
    cases values with
    | nil => exact .nil
    | cons v _ => exact hvalues v (.head _)
  | close hmade =>
    exact .bind .getEnv fun env henv => .pure (.closure (hmade env henv.depth) henv.closures)

/-- A form of the sources that is as deep as there are frames leads from an environment whose
closures come from the sources to values whose closures do, and fails only with an error about
them. -/
theorem eval_traces (fuel : Nat) (form : Form) (hform : Form.StandsIn sources form level)
    (hpos : 1 ≤ depth) (hdepth : depth ≤ level) : (eval fuel form).Traces sources depth := by
  induction fuel generalizing form level depth with
  | zero => rw [eval_zero]; exact .outOfFuel
  | succ fuel ih =>
    match form with
    | .number x _ => exact .pure (.number x)
    | .symbol name span =>
      refine .bind .getEnv fun env henv => ?_
      cases hname : env.lookup name with
      | some value =>
        rw [Env.get, hname]
        exact .pure (henv.closures.lookup hname)
      | none =>
        rw [Env.get, hname]
        obtain ⟨source, hsource, hsymbol⟩ := hform
        exact .fail (.blames hsource (.unbound hsymbol))
    | .list [] span =>
      obtain ⟨source, hsource, hlist⟩ := hform
      exact .fail (.blames hsource (.illFormed hlist))
    | .list (head :: args) span =>
      have hnext : depth ≤ level + 1 := by omega
      rw [eval_plan]
      refine .bind (ih head (hform.element (.head _)) hpos hnext) fun f hf => ?_
      refine .bind (V := fun p => f.plan head.span span args = .ok p)
        (.ofExcept (fun _ h => h) fun _ => f.explained_of_plan hform) fun p hp => ?_
      have hoperands : ∀ arg ∈ p.operands, (eval fuel arg).Traces sources depth := fun arg harg =>
        ih arg (hform.element (.tail _ ((Value.planned hp).operands_subset harg))) hpos hnext
      refine .bind (.all hoperands) fun values hvalues => ?_
      exact (Value.traced_of_plan hf hform hdepth hpos hp).run (fun form _ _ => ih form) hvalues

theorem interpret_traces {source : String} {s : Script} (hsource : source ∈ sources)
    (hs : Script.ofString source = .ok s) : (interpret fuel s).Traces sources 1 :=
  .reporting (.last (fun form hform =>
    eval_traces fuel form (.top hsource hs hform) (Nat.le_refl 1) (Nat.le_refl 1)) .nil)

end Evaluation

/-! ## Sessions -/

/-- The source texts of the runs. -/
abbrev sourcesOf (runs : List (Nat × String)) : List String := runs.map Prod.snd

section Sessions

variable {sources : List String} {fuel : Nat} {source : String} {env : Env}

/-- A run of a source text, whether it is a script or not. -/
theorem run_traced (hsource : source ∈ sources) (henv : env.Traced sources 1) :
    (run fuel source env).env.Traced sources 1 ∧
      ∀ value, (run fuel source env).result = .ok value → value.Traced sources := by
  unfold run
  cases hs : Script.ofString source with
  | error e => exact ⟨henv, fun _ heq => nomatch heq⟩
  | ok s =>
    have h : (interpret fuel s).Traces sources 1 := interpret_traces hsource hs
    exact ⟨h.env env henv, fun value => h.value env value henv⟩

theorem Env.Traced.afterRuns (henv : env.Traced sources 1) {runs : List (Nat × String)}
    (hruns : sourcesOf runs ⊆ sources) : (env.afterRuns runs).Traced sources 1 := by
  induction runs generalizing env with
  | nil => exact henv
  | cons first rest ih =>
    obtain ⟨hfirst, hrest⟩ := List.cons_subset.mp hruns
    exact ih (run_traced hfirst henv).1 hrest

theorem Env.standard_traced (sources : List String) : standard.Traced sources 1 :=
  ⟨rfl, standard_all_closures⟩

/-- After the first runs of a session its closures come from the sources of the session. -/
theorem Env.traced_afterRuns (front back : List (Nat × String)) :
    (standard.afterRuns front).Traced (sourcesOf (front ++ back)) 1 :=
  (standard_traced _).afterRuns (List.map_subset _ (List.subset_append_left _ _))

end Sessions

/-- The value is there after the runs: it stands in what the environment binds, or in what one of
the runs came to. -/
inductive Value.LeftBy (runs : List (Nat × String)) (w : Value) : Prop where
  | bound : (Env.standard.afterRuns runs).Contains w → LeftBy runs w
  | returned {front back : List (Nat × String)} {fuel : Nat} {source : String} {value : Value} :
      runs = front ++ (fuel, source) :: back →
        (run fuel source (Env.standard.afterRuns front)).result = .ok value → value.Contains w →
          LeftBy runs w

/-- **Provenance.** Every closure that is there after a session, however deep it stands in values
and in the scopes of other closures, has the parameters and the body of a list in one of the source
texts, and its scope has at most as many frames as this list is deep. -/
theorem closure_madeIn_of_leftBy (runs : List (Nat × String)) (params : List String)
    (body : List Form) (scope : Env) (h : (Value.closure params body scope).LeftBy runs) :
    Closure.MadeIn (sourcesOf runs) params body scope := by
  cases h with
  | bound hbound =>
    have henv := Env.traced_afterRuns runs []
    rw [List.append_nil] at henv
    exact Env.all_closures_iff.mp henv.closures params body scope hbound
  | @returned front back fuel source value hruns hvalue hcontains =>
    subst hruns
    have henv := Env.traced_afterRuns front ((fuel, source) :: back)
    have hsource : source ∈ sourcesOf (front ++ (fuel, source) :: back) := by simp
    exact (run_traced hsource henv).2 value hvalue params body scope hcontains

/-- The closure that a call of `make` gives has two frames, though `make` is called with another
name for `fun`, and though the run fails in the end. -/
theorem closure_madeIn_of_leftBy_nested :
    let runs := [(5, "(let f fun) (let make (f x (f y (list x y))))"), (5, "(let g (make 1)) (g)")]
    ∃ params body scope, (Value.closure params body scope).LeftBy runs ∧ scope.depth = 2 ∧
      Closure.MadeIn (sourcesOf runs) params body scope := by
  intro runs
  have hlookup : (match (Env.standard.afterRuns runs).lookup "g" with
      | some (.closure _ _ scope) => scope.depth == 2
      | some (.number _) | some .nil | some (.list _) | some (.builtin _) | none => false) =
        true := by decide +kernel
  rcases hg : (Env.standard.afterRuns runs).lookup "g" with _ | v
  · rw [hg] at hlookup
    cases hlookup
  · rw [hg] at hlookup
    cases v with
    | closure params body scope =>
      obtain ⟨frame, hframe, hbinding⟩ := Scope.exists_binding_of_lookup hg
      have hleft : (Value.closure params body scope).LeftBy runs :=
        .bound ⟨frame, hframe, _, hbinding, .self _⟩
      exact ⟨params, body, scope, hleft, beq_iff_eq.mp hlookup,
        closure_madeIn_of_leftBy runs params body scope hleft⟩
    | number | nil | list | builtin => cases hlookup

end SnapLisp
