import SnapLisp.Proofs.Evaluation.Respanned
import SnapLisp.Proofs.Evaluation.Sequence
import SnapLisp.Proofs.Form.Joined

/-!
# Running line by line

A script may be entered line by line or all at once. Running two texts as one, the second under the
first, is running the first and then the second where the first one ended, unless it failed
(`run_line_by_line`). What differs are spans: those of the second text are moved down.
-/

namespace SnapLisp

/-- Spans that come from the first text or from before it stay, and those of the second text are
moved below the first. -/
def Span.LineByLine (above : List UInt8) : Set (Span → Span → Prop) := {Eq, Span.MovedBelow above}

/-- An error that ends one of two actions in a row is told at the end of both. -/
theorem Action.reporting_bind {α β : Type} (first : Action α) (next : α → Action β) :
    reporting (first >>= next) = reporting first >>= fun a => reporting (next a) := by
  funext env
  rcases h : first env with ⟨halt | a, env', events⟩
  · cases halt <;> simp [reporting, bind_apply, h]
  · rcases hnext : next a env' with ⟨halt | b, env'', events'⟩
    · cases halt <;> simp [reporting, bind_apply, h, hnext]
    · simp [reporting, bind_apply, h, hnext]

theorem Outcome.Respanned.after {ways : Set (Span → Span → Prop)} {o o' : Outcome Value}
    (h : o.Respanned ways o') (events : List Event) :
    (o.after events).Respanned ways (o'.after events) :=
  ⟨by rw [printed_after, printed_after, h.printed], h.result, h.env⟩

/-- The outcome of running a script if there was a value before: a script without forms has no other
one. -/
def Outcome.orKeep (o : Outcome Value) (s : Script) (value : Value) : Outcome Value :=
  ⟨if s.forms = [] then .ok value else o.result, o.env, o.events⟩

/-- The value before counts only if there are no forms. -/
theorem EndsWith.orKeep {source : String} {s : Script} (hs : Script.ofString source = .ok s)
    {env : Env} {o : Outcome Value} (h : EndsWith (run · source) env o) (value : Value) :
    EndsWith (runForms value s.forms) env (o.orKeep s value) := by
  rw [run_of_ok hs] at h
  obtain ⟨hfin, fuel, rfl⟩ := h
  unfold Outcome.orKeep
  cases hforms : s.forms with
  | nil => exact ⟨nofun, fuel, rfl⟩
  | cons f fs =>
    rw [hforms] at hfin
    exact ⟨hfin, fuel, rfl⟩

/-- Running the second text under the first, where the first one alone has ended with a value. Both
that and running the second text on its own from there end or go on forever, and they end alike. -/
structure RunsOn (above source : String) (s : Script) (env : Env) (value : Value) (env₁ : Env)
    (events : List Event) : Prop where
  finishes : Finishes (run · (above ++ "\n" ++ source)) env ↔ Finishes (run · source) env₁
  ends : ∀ {o o'}, EndsWith (run · source) env₁ o →
    EndsWith (run · (above ++ "\n" ++ source)) env o' →
      ((o.orKeep s value).after events).Respanned (Span.LineByLine (Bytes.utf8 above)) o'

section Joined

variable {above source : String} {s s' : Script} {forms : List Form}

/-- The joined script goes on with the forms of the second text. -/
theorem run_joined_eq (hs : Script.ofString above = .ok s) {span : Span}
    (hjoined : Script.ofString (above ++ "\n" ++ source) = .ok ⟨s.forms ++ forms, span⟩) :
    (run · (above ++ "\n" ++ source)) =
      fun fuel => run fuel above >>= fun value => runForms value forms fuel := by
  rw [run_of_ok hjoined]
  funext fuel
  rw [congrFun (run_of_ok hs) fuel, runForms, Action.last_append, Action.reporting_bind]
  rfl

theorem finishes_runForms_nil_iff (hs' : Script.ofString source = .ok s') (value : Value)
    (env : Env) : Finishes (runForms value s'.forms) env ↔ Finishes (run · source) env := by
  rw [run_of_ok hs']
  cases s'.forms with
  | nil => exact ⟨fun _ => ⟨0, nofun⟩, fun _ => ⟨0, nofun⟩⟩
  | cons f fs => rfl

theorem runsOn_of_ok (hs : Script.ofString above = .ok s) (hs' : Script.ofString source = .ok s')
    {env env₁ : Env} {value : Value} {events : List Event}
    (h : EndsWith (run · above) env ⟨.ok value, env₁, events⟩) :
    RunsOn above source s' env value env₁ events := by
  obtain ⟨forms, hjoined, hforms⟩ := Script.ofString_joined hs hs'
  have hstay : Eq ∈ Span.LineByLine (Bytes.utf8 above) := .inl rfl
  have hmove : Span.MovedBelow (Bytes.utf8 above) ∈ Span.LineByLine (Bytes.utf8 above) := .inr rfl
  have hvalue := value.respanned_refl hstay fun _ => rfl
  have henv := Env.respanned_refl hstay (fun _ => rfl) env₁
  have hnext (value : Value) := fuelExtends_runForms value forms
  constructor
  · rw [run_joined_eq hs hjoined, h.finishes_bind_iff (fuelExtends_run above) hnext,
      ← finishes_runForms_iff hmove hforms hvalue henv, finishes_runForms_nil_iff hs']
  · intro o o' ho ho'
    rw [run_joined_eq hs hjoined, h.bind_iff (fuelExtends_run above) hnext] at ho'
    obtain ⟨o'', ho'', rfl⟩ := ho'
    exact ((ho.orKeep hs' value).runForms_respanned hmove hforms hvalue henv ho'').after events

end Joined

/-- **Line by line.** Two scripts, one under the other, are one script with the forms of both, those
of the second one moved down. It goes on forever if the first script does; it ends as the first
script does if that fails; and otherwise it runs on as the second script does from there. -/
theorem run_line_by_line (above source : String) (s s' : Script)
    (hs : Script.ofString above = .ok s) (hs' : Script.ofString source = .ok s') :
    (∃ forms span, Script.ofString (above ++ "\n" ++ source) = .ok ⟨s.forms ++ forms, span⟩ ∧
        List.Forall₂ (Form.Respanned (Span.MovedBelow (Bytes.utf8 above))) s'.forms forms) ∧
      (∀ env, Finishes (run · (above ++ "\n" ++ source)) env → Finishes (run · above) env) ∧
      (∀ env env₁ halt events, EndsWith (run · above) env ⟨.error halt, env₁, events⟩ →
        EndsWith (run · (above ++ "\n" ++ source)) env ⟨.error halt, env₁, events⟩) ∧
      ∀ env env₁ value events, EndsWith (run · above) env ⟨.ok value, env₁, events⟩ →
        RunsOn above source s' env value env₁ events := by
  obtain ⟨forms, hjoined, hforms⟩ := Script.ofString_joined hs hs'
  refine ⟨⟨forms, _, hjoined, hforms⟩, fun env hfin => ?_, fun env env₁ halt events h => ?_,
    fun _ _ _ _ => runsOn_of_ok hs hs'⟩
  · rw [run_joined_eq hs hjoined, finishes_iff_endsWith] at hfin
    obtain ⟨o, ho⟩ := hfin
    rw [finishes_iff_endsWith]
    rcases ho.of_bind with ⟨_, _, _, h, -⟩ | ⟨_, _, _, _, h, -, -⟩ <;> exact ⟨_, h⟩
  · rw [run_joined_eq hs hjoined]
    exact h.bind_error

/-- A closure of the first line is called on the second one, and a first line that fails is the last
one. -/
theorem run_line_by_line_call :
    (∃ s value env events, Script.ofString "(f f)" = .ok s ∧
        EndsWith (run · "(let f (fun x x))") Env.standard ⟨.ok value, env, events⟩ ∧
        RunsOn "(let f (fun x x))" "(f f)" s Env.standard value env events) ∧
      ∃ halt env events, EndsWith (run · "(f f)") Env.standard ⟨.error halt, env, events⟩ ∧
        EndsWith (run · ("(f f)" ++ "\n" ++ "(f f)")) Env.standard ⟨.error halt, env, events⟩ := by
  obtain ⟨s, hs⟩ : ∃ s, Script.ofString "(let f (fun x x))" = .ok s := ⟨_, by cbv⟩
  obtain ⟨s', hs'⟩ : ∃ s, Script.ofString "(f f)" = .ok s := ⟨_, by cbv⟩
  obtain ⟨value, env, events, hvalue⟩ : ∃ value env events,
      run 4 "(let f (fun x x))" Env.standard = ⟨.ok value, env, events⟩ := ⟨_, _, _, by cbv⟩
  obtain ⟨e, env', events', herror⟩ : ∃ e env events,
      run 4 "(f f)" Env.standard = ⟨.error (.error e), env, events⟩ := ⟨_, _, _, by cbv⟩
  have hends : EndsWith (run · "(let f (fun x x))") Env.standard ⟨.ok value, env, events⟩ :=
    ⟨Outcome.finished_ok value, 4, hvalue⟩
  have hfails : EndsWith (run · "(f f)") Env.standard ⟨.error (.error e), env', events'⟩ :=
    ⟨Outcome.finished_error_iff.mpr Halt.noConfusion, 4, herror⟩
  exact ⟨⟨s', value, env, events, hs', hends,
      (run_line_by_line _ _ s s' hs hs').2.2.2 _ _ _ _ hends⟩,
    .error e, env', events', hfails, (run_line_by_line _ _ s' s' hs' hs').2.2.1 _ _ _ _ hfails⟩

end SnapLisp
