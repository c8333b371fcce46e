import Mathlib.Logic.Equiv.Basic
import SnapLisp.Proofs.Form.Leaves
import SnapLisp.Proofs.Scope.Renamed
import SnapLisp.Proofs.Value.Contents
import SnapLisp.Proofs.Value.Outline

/-!
# Forms and values under other names

A `Renaming` gives the names of a set new names, so that different names stay different and the
operators keep theirs. Names stand in forms, in the parameters and bodies of closures, and in front
of what the frames of a scope bind; `Value.rename` reaches them all, however deep closures are
nested in lists and in the scopes of other closures. Errors that name something name it anew
(`ScriptError.rename`).
-/

namespace SnapLisp

/-- New names for the given ones: no two of them become the same, and those of the operators are
among them and stay. The given names may be all lexemes, or just those that occur in a script. -/
structure Renaming (names : Set String) where
  map : String → String
  injOn : Set.InjOn map names
  operator_mem : ∀ op : Builtin, op.name ∈ names
  map_operator : ∀ op : Builtin, map op.name = op.name

/-- Two names that no operator has change places. -/
def Renaming.swap {names : Set String} (hnames : ∀ op : Builtin, op.name ∈ names) (x y : String)
    (hx : ∀ op : Builtin, op.name ≠ x) (hy : ∀ op : Builtin, op.name ≠ y) : Renaming names where
  map := Equiv.swap x y
  injOn := (Equiv.swap x y).injective.injOn
  operator_mem := hnames
  map_operator op := Equiv.swap_apply_of_ne_of_ne (hx op) (hy op)

/-! ## Renaming -/

namespace Form

mutual

/-- The form with all its symbols renamed. -/
def rename (r : String → String) : Form → Form
  | .symbol name span => .symbol (r name) span
  | .number value span => .number value span
  | .list items span => .list (renameAll r items) span

/-- The forms of a list with all their symbols renamed. -/
def renameAll (r : String → String) : List Form → List Form
  | [] => []
  | f :: fs => rename r f :: renameAll r fs

end

theorem renameAll_eq_map (r : String → String) (forms : List Form) :
    renameAll r forms = forms.map (rename r) := by
  induction forms with
  | nil => rfl
  | cons f fs ih => rw [renameAll, ih, List.map_cons]

@[simp] theorem span_rename (r : String → String) (f : Form) : (f.rename r).span = f.span := by
  cases f <;> rfl

end Form

/-- The script with all symbols renamed. -/
def Script.rename (r : String → String) (s : Script) : Script :=
  ⟨s.forms.map (Form.rename r), s.span⟩

namespace Value

mutual

/-- The value with all names renamed: the parameters of closures, the symbols of their bodies, and
what their scopes bind. -/
def rename (r : String → String) : Value → Value
  | .number x => .number x
  | .nil => .nil
  | .list items => .list (renameAll r items)
  | .builtin op => .builtin op
  | .closure params body scope =>
    .closure (params.map r) (body.map (Form.rename r)) (renameScope r scope)

/-- The values of a list with all names renamed. -/
def renameAll (r : String → String) : List Value → List Value
  | [] => []
  | v :: vs => rename r v :: renameAll r vs

/-- The scope of a closure with all names renamed. -/
def renameScope (r : String → String) : Scope Value → Scope Value
  | ⟨top, outer⟩ => ⟨renameFrame r top, renameFrames r outer⟩

/-- A frame with all names renamed. -/
def renameFrame (r : String → String) : List (String × Value) → List (String × Value)
  | [] => []
  | binding :: rest => renameBinding r binding :: renameFrame r rest

/-- A binding with all names renamed. -/
def renameBinding (r : String → String) : String × Value → String × Value
  | (name, value) => (r name, rename r value)

/-- Frames with all names renamed. -/
def renameFrames (r : String → String) :
    List (List (String × Value)) → List (List (String × Value))
  | [] => []
  | frame :: rest => renameFrame r frame :: renameFrames r rest

end

end Value

/-- The environment with all names renamed, those of its frames and those in its values. -/
def Env.rename (r : String → String) (env : Env) : Env := Scope.rename r (Value.rename r) env

/-- The same error about the renamed name, if it is about a name. -/
def ScriptError.rename (r : String → String) : ScriptError → ScriptError
  | .unbound name span => .unbound (r name) span
  | .redeclared name => .redeclared (r name)
  | e => e

namespace Value

variable {r : String → String}

theorem renameAll_eq_map (vs : List Value) : renameAll r vs = vs.map (rename r) := by
  induction vs with
  | nil => rfl
  | cons v vs ih => rw [renameAll, ih, List.map_cons]

theorem renameFrame_eq (frame : Frame Value) :
    renameFrame r frame = Frame.rename r (rename r) frame := by
  induction frame with
  | nil => rfl
  | cons binding rest ih =>
    obtain ⟨name, value⟩ := binding
    rw [renameFrame, renameBinding, ih]
    rfl

theorem renameFrames_eq_map (frames : List (Frame Value)) :
    renameFrames r frames = frames.map (Frame.rename r (rename r)) := by
  induction frames with
  | nil => rfl
  | cons frame rest ih => rw [renameFrames, renameFrame_eq, ih, List.map_cons]

@[simp] theorem rename_list (items : List Value) :
    (list items).rename r = list (items.map (rename r)) := by
  rw [rename, renameAll_eq_map]

@[simp] theorem rename_closure (params : List String) (body : List Form) (scope : Env) :
    (closure params body scope).rename r =
      closure (params.map r) (body.map (Form.rename r)) (scope.rename r) := by
  rw [rename, renameScope, renameFrame_eq, renameFrames_eq_map]
  rfl

/-- Numbers have no names, and the type that is to blame has none either. -/
theorem numbers_rename (vs : List Value) :
    Builtin.numbers (vs.map (rename r)) = Builtin.numbers vs := by
  induction vs with
  | nil => rfl
  | cons v vs ih =>
    cases v with
    | number x =>
      rw [List.map_cons, rename, Builtin.numbers, Builtin.numbers, ih]
    | nil | builtin op => rfl
    | list items => rw [List.map_cons, rename_list]; rfl
    | closure params body scope => rw [List.map_cons, rename_closure]; rfl

theorem headD_rename (vs : List Value) :
    (vs.map (rename r)).headD .nil = (vs.headD .nil).rename r := by
  cases vs <;> rfl

end Value

/-! ## Names in forms and values -/

variable {names : Set String}

/-- All symbols of the form are among the given names. -/
def Form.NamesIn (names : Set String) (form : Form) : Prop := ∀ name ∈ form.symbols, name ∈ names

theorem Form.namesIn_list {items : List Form} {span : Span} :
    (list items span).NamesIn names ↔ ∀ item ∈ items, item.NamesIn names := by
  constructor
  · intro h item hitem name hname
    exact h name (mem_symbolsAll.mpr ⟨item, hitem, hname⟩)
  · intro h name hname
    obtain ⟨item, hitem, hname⟩ := mem_symbolsAll.mp hname
    exact h item hitem name hname

/-- All names of a closure are among the given ones. -/
structure Closure.NamesIn (names : Set String) (params : List String) (body : List Form)
    (scope : Env) : Prop where
  params : ∀ param ∈ params, param ∈ names
  body : ∀ form ∈ body, form.NamesIn names
  scope : scope.KeysIn names

/-- All names in the value are among the given ones, also those in closures that stand in it. -/
def Value.NamesIn (names : Set String) (v : Value) : Prop := v.Closures (Closure.NamesIn names)

/-- All names in the environment are among the given ones, also those in its values. -/
structure Env.NamesIn (names : Set String) (env : Env) : Prop where
  keys : env.KeysIn names
  values : env.All (Value.NamesIn names)

namespace Env

variable {r : String → String} {env : Env}

theorem NamesIn.assign (h : env.NamesIn names) {name : String} (hname : name ∈ names) {v : Value}
    (hv : v.NamesIn names) : NamesIn names (env.assign name v) :=
  ⟨h.keys.assign hname, h.values.assign name hv⟩

theorem NamesIn.callEnv (h : env.NamesIn names) {params : List String}
    (hparams : ∀ param ∈ params, param ∈ names) {vs : List Value}
    (hvs : ∀ v ∈ vs, v.NamesIn names) : NamesIn names (Closure.callEnv env params vs) := by
  refine ⟨h.keys.push.assignAll fun binding hbinding => ?_, Value.Closures.callEnv h.values _ hvs⟩
  exact hparams _ (List.of_mem_zip hbinding).1

theorem callEnv_rename (hr : Set.InjOn r names) (h : env.NamesIn names) {params : List String}
    (hparams : ∀ param ∈ params, param ∈ names) (vs : List Value) :
    Closure.callEnv (env.rename r) (params.map r) (vs.map (Value.rename r)) =
      (Closure.callEnv env params vs).rename r := by
  have hbindings : ∀ binding ∈ params.zip vs, binding.1 ∈ names :=
    fun binding hbinding => hparams _ (List.of_mem_zip hbinding).1
  rw [Closure.callEnv, Closure.callEnv, List.zip_map, rename, Scope.push_rename,
    Scope.assignAll_rename hr h.keys.push hbindings, rename]

/-- The operators are bound under their own names, before and after. -/
theorem standard_namesIn (r : Renaming names) : standard.NamesIn names := by
  refine ⟨Scope.EachBinding.empty.assignAll fun binding hbinding => ?_, standard_all_closures⟩
  obtain ⟨op, -, rfl⟩ := List.mem_map.mp hbinding
  exact r.operator_mem op

theorem standard_rename (r : Renaming names) : standard.rename r.map = standard := by
  have hkeys : ∀ binding ∈ Builtin.all.map fun op => (op.name, Value.builtin op),
      binding.1 ∈ names := by
    intro binding hbinding
    obtain ⟨op, -, rfl⟩ := List.mem_map.mp hbinding
    exact r.operator_mem op
  have hsame (op : Builtin) :
      Prod.map r.map (Value.rename r.map) (op.name, .builtin op) = (op.name, .builtin op) := by
    rw [Prod.map_apply, r.map_operator, Value.rename]
  rw [rename, standard, ← Scope.assignAll_rename r.injOn .empty hkeys, List.map_map]
  exact congrArg _ (List.map_congr_left fun op _ => hsame op)

end Env

end SnapLisp
