import Mathlib.Logic.ExistsUnique
import SnapLisp.Proofs.Evaluation.Sequence

/-!
# What the operators make of their arguments

All operators but `let` and `fun` are strict: they evaluate their arguments from left to right and
then look at nothing but the values. `Builtin.Answers` says what each of them makes of values, and
`Builtin.AppliesTo` how an application ends: with the first argument that fails, or with the answer
to the values of all. An application ends in this way and in no other (`apply_strict_ends_iff`).
-/

namespace SnapLisp

namespace Builtin

/-- The operator evaluates all its arguments. -/
def IsStrict (op : Builtin) : Prop := op ≠ .define ∧ op ≠ .lambda

/-- The operator computes a number. -/
def IsArithmetic (op : Builtin) : Prop := op ∈ [.add, .subtract, .multiply, .divide]

instance (op : Builtin) : Decidable op.IsStrict := inferInstanceAs (Decidable (_ ∧ _))

instance (op : Builtin) : Decidable op.IsArithmetic := inferInstanceAs (Decidable (op ∈ _))

/-- What a strict operator makes of the values of its arguments: a value or an error, and what it
tells the outside. -/
inductive Answers : Builtin → List Value → Except ScriptError Value → List Event → Prop where
  | list (values : List Value) : Answers .list values (.ok (.list values)) []
  | print (values : List Value) : Answers .print values (.ok .nil) [.log (values.map Value.text)]
  /-- The first value that is no number is to blame. -/
  | notNumber {op : Builtin} (xs : List Float) {v : Value} (rest : List Value) :
      op.IsArithmetic → (∀ x, v ≠ .number x) →
        Answers op (xs.map .number ++ v :: rest) (.error (.notNumber v.typeName)) []
  | noArgument {op : Builtin} :
      op = .subtract ∨ op = .divide → Answers op [] (.error (.wrongArity "at least 1" 0)) []
  | add (xs : List Float) :
      Answers .add (xs.map .number) (.ok (.number (xs.foldl (· + ·) 0))) []
  | multiply (xs : List Float) :
      Answers .multiply (xs.map .number) (.ok (.number (xs.foldl (· * ·) 1))) []
  | negate (x : Float) : Answers .subtract [.number x] (.ok (.number (-x))) []
  | subtract (x y : Float) (xs : List Float) :
      Answers .subtract ((x :: y :: xs).map .number)
        (.ok (.number ((y :: xs).foldl (· - ·) x))) []
  | invert (x : Float) : Answers .divide [.number x] (.ok (.number (1 / x))) []
  | divide (x y : Float) (xs : List Float) :
      Answers .divide ((x :: y :: xs).map .number) (.ok (.number ((y :: xs).foldl (· / ·) x))) []

/-- How the application of a strict operator ends, in which environment, and with which events. -/
inductive AppliesTo (op : Builtin) (args : List Form) (env : Env) :
    Except ScriptError Value → Env → List Event → Prop where
  /-- An argument fails; those after it are not evaluated, and the operator has no say. -/
  | argument {e : ScriptError} {env' : Env} {events : List Event} :
      FailsAmong args env e env' events → AppliesTo op args env (.error e) env' events
  /-- The arguments have values. The answer to them comes last and leaves the environment alone. -/
  | answer {values : List Value} {env' : Env} {events told : List Event}
      {r : Except ScriptError Value} :
      EvaluatesAll args env values env' events → Answers op values r told →
        AppliesTo op args env r env' (events ++ told)

/-! ## Numbers among the values -/

theorem numbers_map_number (xs : List Float) : numbers (xs.map .number) = .ok xs := by
  induction xs with
  | nil => rfl
  | cons x xs ih =>
    rw [List.map_cons, numbers, ih]
    rfl

theorem numbers_of_not_number (xs : List Float) {v : Value} (hv : ∀ x, v ≠ .number x)
    (rest : List Value) :
    numbers (xs.map .number ++ v :: rest) = .error (.notNumber v.typeName) := by
  induction xs with
  | nil =>
    cases v with
    | number x => exact absurd rfl (hv x)
    | nil | list | builtin | closure => rfl
  | cons x xs ih =>
    rw [List.map_cons, List.cons_append, numbers, ih]
    rfl

/-- Either all values are numbers, or there is a first one that is none. -/
theorem numbers_or_not_number (values : List Value) :
    (∃ xs : List Float, values = xs.map .number) ∨
      ∃ (xs : List Float) (v : Value) (rest : List Value),
        (∀ x, v ≠ .number x) ∧ values = xs.map .number ++ v :: rest := by
  fun_induction numbers values with
  | case1 => -- no value
    exact .inl ⟨[], rfl⟩
  | case2 x rest ih => -- a number first
    rcases ih with ⟨xs, rfl⟩ | ⟨xs, v, rest, hv, rfl⟩
    · exact .inl ⟨x :: xs, rfl⟩
    · exact .inr ⟨x :: xs, v, rest, hv, rfl⟩
  | case3 v rest hv => -- anything else first
    exact .inr ⟨[], v, rest, hv, rfl⟩

/-! ## Answers -/

variable {op : Builtin} {values : List Value} {r : Except ScriptError Value} {told : List Event}

theorem exists_answer_of_arithmetic (h : op.IsArithmetic)
    (hnumbers : ∀ xs : List Float, ∃ r told, op.Answers (xs.map .number) r told)
    (values : List Value) : ∃ r told, op.Answers values r told := by
  rcases numbers_or_not_number values with ⟨xs, rfl⟩ | ⟨xs, v, rest, hv, rfl⟩
  · exact hnumbers xs
  · exact ⟨_, _, .notNumber xs rest h hv⟩

/-- A strict operator has an answer to whatever values. -/
theorem exists_answer (h : op.IsStrict) (values : List Value) :
    ∃ r told, op.Answers values r told := by
  cases op with
  | define => exact absurd rfl h.1
  | lambda => exact absurd rfl h.2
  | list => exact ⟨_, _, .list values⟩
  | print => exact ⟨_, _, .print values⟩
  | add =>
    exact exists_answer_of_arithmetic (by decide) (fun xs => ⟨_, _, .add xs⟩) values
  | multiply =>
    exact exists_answer_of_arithmetic (by decide) (fun xs => ⟨_, _, .multiply xs⟩) values
  | subtract =>
    refine exists_answer_of_arithmetic (by decide) (fun xs => ?_) values
    match xs with
    | [] => exact ⟨_, _, .noArgument (.inl rfl)⟩
    | [x] => exact ⟨_, _, .negate x⟩
    | x :: y :: xs => exact ⟨_, _, .subtract x y xs⟩
  | divide =>
    refine exists_answer_of_arithmetic (by decide) (fun xs => ?_) values
    match xs with
    | [] => exact ⟨_, _, .noArgument (.inr rfl)⟩
    | [x] => exact ⟨_, _, .invert x⟩
    | x :: y :: xs => exact ⟨_, _, .divide x y xs⟩

/-- What is computed from the values of arithmetic is its result; nothing is told. -/
theorem run_arithmetic (evaluate : Evaluator) (compute : List Float → Except ScriptError Float)
    (values : List Value) (env : Env) :
    Conclusion.run evaluate (.arithmetic compute) values env =
      .ofExcept (((numbers values).bind compute).map .number) env [] := by
  simp only [Conclusion.run, Action.bind_apply]
  cases (numbers values).bind compute <;> rfl

/-- A strict operator has all its arguments as operands, and its conclusion gives the answer. -/
theorem Answers.run (h : op.Answers values r told) (evaluate : Evaluator) (span : Span)
    (args : List Form) {p : Plan} (hplan : op.plan span args = .ok p) (env : Env) :
    p.conclusion.run evaluate values env = .ofExcept r env told := by
  cases h with
  | list | print => cases hplan; rfl
  | notNumber xs rest harith hv =>
    have hnumbers := numbers_of_not_number xs hv rest
    simp only [IsArithmetic, List.mem_cons, List.not_mem_nil, or_false] at harith
    rcases harith with rfl | rfl | rfl | rfl <;> cases hplan <;> rw [run_arithmetic, hnumbers] <;>
      rfl
  | noArgument hop => rcases hop with rfl | rfl <;> cases hplan <;> rfl
  | negate x | invert x => cases hplan; rfl
  | add xs | multiply xs | subtract x y xs | divide x y xs =>
    cases hplan
    rw [run_arithmetic, numbers_map_number]
    rfl

theorem IsStrict.exists_plan (h : op.IsStrict) (span : Span) (args : List Form) :
    ∃ conclusion, op.plan span args = .ok ⟨args, conclusion⟩ := by
  cases op with
  | define => exact absurd rfl h.1
  | lambda => exact absurd rfl h.2
  | list | print | add | subtract | multiply | divide => exact ⟨_, rfl⟩

/-- No operator has two answers to the same values. -/
theorem Answers.unique (hop : op.IsStrict) (h : op.Answers values r told)
    {r' : Except ScriptError Value} {told' : List Event} (h' : op.Answers values r' told') :
    r = r' ∧ told = told' := by
  obtain ⟨_, hplan⟩ := hop.exists_plan (.point .first) []
  have heq := (h.run (eval 0) _ _ hplan Env.standard).symm.trans (h'.run (eval 0) _ _ hplan _)
  simp only [Outcome.ofExcept, Outcome.mk.injEq, true_and] at heq
  obtain ⟨hresult, htold⟩ := heq
  refine ⟨?_, htold⟩
  cases r <;> cases r' <;> cases hresult <;> rfl

/-! ## Applications -/

section Applications

variable {span : Span} {args : List Form} {env : Env}

/-- A strict operator evaluates its arguments and then concludes. -/
theorem apply_eq_all {conclusion : Conclusion} (hplan : op.plan span args = .ok ⟨args, conclusion⟩)
    (evaluate : Evaluator) :
    op.apply evaluate span args = Action.all evaluate args >>= conclusion.run evaluate := by
  rw [apply_eq_plan, hplan, Action.ofExcept_ok, pure_bind]
  rfl

theorem AppliesTo.endsWith (hop : op.IsStrict) {env' : Env} {events : List Event}
    (h : op.AppliesTo args env r env' events) :
    EndsWith (fun fuel => op.apply (eval fuel) span args) env (.ofExcept r env' events) := by
  obtain ⟨conclusion, hplan⟩ := hop.exists_plan span args
  simp only [apply_eq_all hplan]
  cases h with
  | argument hfails => exact hfails.endsWith_all.bind_error
  | answer hvalues hanswer =>
    have hextends (values : List Value) :
        FuelExtends fun fuel => conclusion.run (eval fuel) values :=
      fun _ _ hle => conclusion.run_extends (eval_extends hle) values
    refine hvalues.endsWith_all.bind (.all fuelExtends_eval args) hextends
      (o := .ofExcept _ _ _) ⟨?_, 0, hanswer.run (eval 0) span args hplan _⟩
    cases r <;> exact nofun

theorem appliesTo_of_endsWith (hop : op.IsStrict) {o : Outcome Value}
    (h : EndsWith (fun fuel => op.apply (eval fuel) span args) env o) :
    ∃ r env' events, op.AppliesTo args env r env' events ∧ o = .ofExcept r env' events := by
  obtain ⟨conclusion, hplan⟩ := hop.exists_plan span args
  simp only [apply_eq_all hplan] at h
  rcases h.of_bind with
    ⟨halt, env₁, events₁, hargs, rfl⟩ | ⟨values, env₁, events₁, o', hargs, ho, rfl⟩
  · rcases endsWith_all_cases hargs with ⟨_, _, _, _, heq⟩ | ⟨e, _, _, hfails, heq⟩ <;> cases heq
    exact ⟨.error e, _, _, .argument hfails, rfl⟩
  · rcases endsWith_all_cases hargs with ⟨_, _, _, hvalues, heq⟩ | ⟨_, _, _, _, heq⟩ <;> cases heq
    obtain ⟨r, told, hanswer⟩ := exists_answer hop values
    obtain ⟨-, fuel, rfl⟩ := ho
    have hrun : conclusion.run (eval fuel) values env₁ = .ofExcept r env₁ told :=
      hanswer.run (eval fuel) span args hplan env₁
    exact ⟨r, env₁, _, .answer hvalues hanswer, congrArg (Outcome.after · events₁) hrun⟩

/-- An application goes on forever only if its arguments do. -/
theorem finishes_apply_iff (hop : op.IsStrict) :
    Finishes (fun fuel => op.apply (eval fuel) span args) env ↔
      Finishes (fun fuel => Action.all (eval fuel) args) env := by
  rw [finishes_iff_endsWith, finishes_iff_endsWith]
  constructor
  · rintro ⟨o, h⟩
    obtain ⟨r, env', events, happlies, -⟩ := appliesTo_of_endsWith hop h
    cases happlies with
    | argument hfails => exact ⟨_, hfails.endsWith_all⟩
    | answer hvalues _ => exact ⟨_, hvalues.endsWith_all⟩
  · rintro ⟨o, h⟩
    rcases endsWith_all_cases h with ⟨values, _, _, hvalues, -⟩ | ⟨e, _, _, hfails, -⟩
    · obtain ⟨r, told, hanswer⟩ := exists_answer hop values
      exact ⟨_, AppliesTo.endsWith hop (.answer hvalues hanswer)⟩
    · exact ⟨_, AppliesTo.endsWith hop (.argument hfails)⟩

end Applications

end Builtin

/-- **Strict operators.** An application of a strict operator evaluates the arguments from left to
right, up to the first one that fails, and ends with its error; or all have values, and it ends
with the one answer of the operator to these. It goes on forever if and only if evaluating the
arguments does. -/
theorem apply_strict_ends_iff (op : Builtin) (hop : op.IsStrict) (span : Span) (args : List Form)
    (env : Env) :
    (Finishes (fun fuel => op.apply (eval fuel) span args) env ↔
        Finishes (fun fuel => Action.all (eval fuel) args) env) ∧
      (∀ o, EndsWith (fun fuel => op.apply (eval fuel) span args) env o ↔
        ∃ r env' events, op.AppliesTo args env r env' events ∧ o = .ofExcept r env' events) ∧
      ∀ values, ∃! answer : Except ScriptError Value × List Event,
        op.Answers values answer.1 answer.2 := by
  refine ⟨Builtin.finishes_apply_iff hop, fun o => ⟨Builtin.appliesTo_of_endsWith hop, ?_⟩,
    fun values => ?_⟩
  · rintro ⟨r, env', events, h, rfl⟩
    exact h.endsWith hop
  · obtain ⟨r, told, h⟩ := Builtin.exists_answer hop values
    refine ⟨(r, told), h, fun answer h' => ?_⟩
    obtain ⟨hr, htold⟩ := h'.unique hop h
    exact Prod.ext hr htold

/-- A value that is no number does not matter in front of an argument that fails. -/
theorem apply_strict_ends_iff_unbound :
    let span : Span := .point .first
    let args : List Form := [.list [.symbol "print" span] span, .symbol "x" span]
    Builtin.subtract.IsStrict ∧
      EndsWith (fun fuel => Builtin.subtract.apply (eval fuel) span args) Env.standard
        ⟨.error (.error (.unbound "x" span)), Env.standard, [.log []]⟩ := by
  intro span args
  have hstrict : Builtin.subtract.IsStrict := by decide
  have hprint : EndsWith (eval · (.list [.symbol "print" span] span)) Env.standard
      ⟨.ok .nil, Env.standard, [.log []]⟩ := ⟨nofun, 2, rfl⟩
  have hsymbol : EndsWith (eval · (.symbol "x" span)) Env.standard
      ⟨.error (.error (.unbound "x" span)), Env.standard, []⟩ := ⟨nofun, 1, rfl⟩
  obtain ⟨-, hends, -⟩ := apply_strict_ends_iff .subtract hstrict span args Env.standard
  exact ⟨hstrict, (hends _).mpr ⟨_, _, _, .argument (.there hprint (.here hsymbol)), rfl⟩⟩

end SnapLisp
