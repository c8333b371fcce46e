import SnapLisp.CommandLine.Program
import SnapLisp.Proofs.Evaluation.Failures
import SnapLisp.Proofs.Evaluation.Fuel
import SnapLisp.Proofs.Evaluation.Provenance
import SnapLisp.Proofs.Form.Balance
import SnapLisp.Proofs.Token.Faults

/-!
# The commands write what the library tells

The program runs a file with streams for its output, the library runs a source text with a console.
Both are told the same events, so the standard output of the program is the lines of the console and
the value, and its standard error is the report of the error, if there is one
(`Program.agrees_with_run`). A text that is no script fails before there are any events; the error
then has another way to the standard error, with the same outcome. The other command fails in this
way only: the run of a script never fails with a syntax error
(`run_not_isSyntax`).
-/

namespace SnapLisp

/-! ## Streams -/

namespace Streams

/-- Texts with a line feed behind each of them. -/
def ofLines (lines : List String) : String := String.join (lines.map (· ++ "\n"))

/-- The line that reports an error. -/
def reportLine (e : ScriptError) : String := "Error: " ++ e.report ++ "\n"

/-- What is written after a run that printed the lines: these and the value as lines of the
standard output, or the error as the one line of the standard error. -/
def ofRun (lines : List String) : Except ScriptError Value → Streams
  | .ok value => ⟨ofLines (lines ++ [value.text]), ""⟩
  | .error e => ⟨ofLines lines, reportLine e⟩

theorem ofLines_append (front back : List String) :
    ofLines (front ++ back) = ofLines front ++ ofLines back := by
  rw [ofLines, List.map_append, String.join_append, ofLines, ofLines]

theorem ofLines_singleton (text : String) : ofLines [text] = text ++ "\n" := by
  rw [ofLines, List.map_singleton, String.join_cons, String.join_nil, String.append_empty]

theorem foldl_line (s : Streams) (messages : List String) :
    messages.foldl line s = ⟨s.out ++ ofLines messages, s.err⟩ := by
  induction messages generalizing s with
  | nil => simp [ofLines]
  | cons text rest ih =>
    have hcons : ofLines (text :: rest) = text ++ "\n" ++ ofLines rest := by
      rw [← List.singleton_append, ofLines_append, ofLines_singleton]
    rw [List.foldl_cons, ih, hcons]
    simp only [line, String.append_assoc]

theorem failure_script (s : Streams) (e : ScriptError) :
    s.failure (.script e) = ⟨s.out, s.err ++ reportLine e⟩ := by
  simp only [failure, ProgramError.text, reportLine, String.append_assoc]

/-- What the streams hold after events. -/
theorem receiveAll_eq (s : Streams) (events : List Event) : s.receiveAll events =
    ⟨s.out ++ ofLines (events.flatMap Event.messages),
      s.err ++ String.join ((events.filterMap Event.failure?).map reportLine)⟩ := by
  induction events generalizing s with
  | nil => simp [receiveAll, ofLines]
  | cons event rest ih =>
    rw [receiveAll, List.foldl_cons, ← receiveAll, ih, List.flatMap_cons, ofLines_append]
    cases event with
    | log messages =>
      simp [receive, foldl_line, Event.messages, Event.failure?, List.filterMap_cons,
        String.append_assoc]
    | fail e =>
      simp [receive, failure_script, Event.messages, Event.failure?, ofLines, String.append_assoc]

end Streams

/-! ## Syntax errors -/

/-- The error of a text that is no script. -/
def ScriptError.IsSyntax (e : ScriptError) : Prop := ∃ expected place, e = .malformed expected place

theorem TokenStream.isSyntax_of_ofBytes {text : List UInt8} {e : ScriptError}
    (h : ofBytes text = .error e) : e.IsSyntax := by
  cases judged .first text with
  | faultless hs => cases hs.symm.trans h
  | @faulty front part back expected htext _ _ _ herror =>
    have hback := herror back
    rw [← htext] at hback
    cases hback.symm.trans h
    exact ⟨_, _, rfl⟩

namespace Script

theorem isSyntax_of_ofTokens {stream : TokenStream} {e : ScriptError}
    (h : ofTokens stream = .error e) : e.IsSyntax := by
  obtain ⟨front, t, rest, -, -, hr⟩ := holds_nil.reaches passable_nil stream.eof stream.tokens
  rw [show read [] [] stream.eof stream.tokens = .error e from h] at hr
  cases hr with
  | surplus | unclosed => exact ⟨_, _, rfl⟩

theorem isSyntax_of_ofString {source : String} {e : ScriptError}
    (h : ofString source = .error e) : e.IsSyntax := by
  rw [ofString, ofBytes] at h
  cases hstream : TokenStream.ofBytes (Bytes.utf8 source) with
  | error e' =>
    rw [hstream] at h
    cases h
    exact TokenStream.isSyntax_of_ofBytes hstream
  | ok stream =>
    rw [hstream] at h
    exact isSyntax_of_ofTokens h

end Script

/-- Errors that forms and values are to blame for are no syntax errors. -/
theorem ScriptError.Explained.not_isSyntax {sources : List String} {e : ScriptError}
    (h : e.Explained sources) : ¬e.IsSyntax := by
  rintro ⟨expected, place, rfl⟩
  cases h with
  | blames _ h => cases h
  | unplaced h => cases h

/-- The run of a script does not fail with a syntax error. -/
theorem run_not_isSyntax {source : String} {s : Script} (hs : Script.ofString source = .ok s)
    {fuel : Nat} {e : ScriptError}
    (h : (run fuel source Env.standard).result = .error (.error e)) : ¬e.IsSyntax := by
  have htraces : (run fuel source).Traces [source] 1 := by
    have hrun := congrFun (run_of_ok hs) fuel
    rw [hrun]
    exact interpret_traces (List.mem_singleton_self source) hs
  exact (htraces.error _ e (Env.standard_traced _) h).not_isSyntax

/-- The run of a text that is no script tells of the error. -/
theorem run_of_error {source : String} {e : ScriptError} (hs : Script.ofString source = .error e)
    (fuel : Nat) (env : Env) : run fuel source env = ⟨.error (.error e), env, [.fail e]⟩ := by
  simp [run, hs, Action.reporting]

/-! ## The commands -/

namespace Program

variable {source : String} {s : Script} {e : ScriptError}

/-- A file that is a text is read as the text. -/
theorem script_fileText (source : String) :
    script (fileText (some (Bytes.utf8 source))) = (Script.ofString source).mapError .script := by
  rw [fileText, Bytes.decode?_utf8]
  rfl

/-- An error of the script is what the result of the library is then. -/
theorem eq_error_of_mapError {result : Except ScriptError Value}
    (h : Except.error (Halt.error e) = result.mapError .error) : result = .error e := by
  cases result with
  | ok value => cases h
  | error e' => cases h; rfl

/-- **Running.** The command writes what the library tells a console. -/
theorem runFile_eq {fuel : Nat} {result : Except ScriptError Value}
    (h : (run fuel source Env.standard).result = result.mapError .error) :
    runFile fuel (fileText (some (Bytes.utf8 source))) =
      .ofRun (Console.empty.receiveAll (run fuel source Env.standard).events).lines result := by
  rw [runFile, script_fileText, Console.lines_receiveAll]
  cases hs : Script.ofString source with
  | error e =>
    rw [run_of_error hs] at h ⊢
    obtain rfl := eq_error_of_mapError h
    simp [Except.mapError, Streams.failure_script, Streams.ofRun, Streams.empty, Console.empty,
      Event.messages, Streams.ofLines]
  | ok s =>
    have hrun : run fuel source Env.standard = interpret fuel s Env.standard := by
      simp only [run, hs]
    have hfailures := failures_run fuel source Env.standard
    rw [hrun] at h hfailures ⊢
    simp only [Except.mapError, h, Streams.receiveAll_eq, hfailures, Outcome.failure?]
    cases result with
    | ok value =>
      simp [Streams.ofRun, Streams.line, Streams.ofLines_append, Streams.ofLines_singleton,
        Streams.empty, Console.empty, String.append_assoc]
    | error e => simp [Streams.ofRun, Streams.empty, Console.empty]

/-- **Checking.** A text that is no script is reported, and a script is shown. -/
theorem checkFile_of_error (hs : Script.ofString source = .error e) (compact : Bool) :
    checkFile compact (fileText (some (Bytes.utf8 source))) = ⟨"", Streams.reportLine e⟩ := by
  rw [checkFile, script_fileText, hs]
  simp [Except.mapError, Streams.failure_script, Streams.empty]

theorem checkFile_of_ok (hs : Script.ofString source = .ok s) (compact : Bool) :
    checkFile compact (fileText (some (Bytes.utf8 source))) =
      ⟨(s.json compact).text ++ "\n", ""⟩ := by
  rw [checkFile, script_fileText, hs]
  simp [Except.mapError, Streams.line, Streams.empty]

/-- **Agreement.** If the library's run of a source text ends, with a result and lines on a fresh
console, then the command that runs a file with this text writes the lines and the result. The other
command writes the same error if it is a syntax error, and otherwise the document of the script. -/
theorem agrees_with_run {o : Outcome Value} (h : EndsWith (run · source) Env.standard o) :
    let file := fileText (some (Bytes.utf8 source))
    ∃ result : Except ScriptError Value, o.result = result.mapError .error ∧
      (∃ enough, ∀ fuel ≥ enough, runFile fuel file =
        .ofRun (Console.empty.receiveAll o.events).lines result) ∧
      ∀ compact,
        (∀ e, result = .error e → e.IsSyntax →
          checkFile compact file = ⟨"", Streams.reportLine e⟩) ∧
        ((∀ e, result = .error e → ¬e.IsSyntax) → ∃ s, Script.ofString source = .ok s ∧
          checkFile compact file = ⟨(s.json compact).text ++ "\n", ""⟩) := by
  intro file
  have hcases := h.result_cases fun fuel => (run_safe fuel source).not_crash
  obtain ⟨hfin, fuel, rfl⟩ := h
  obtain ⟨result, hresult⟩ : ∃ result : Except ScriptError Value,
      (run fuel source Env.standard).result = result.mapError .error := by
    rcases hcases with ⟨v, hv⟩ | ⟨e, he⟩
    · exact ⟨.ok v, hv⟩
    · exact ⟨.error e, he⟩
  refine ⟨result, hresult, ⟨fuel, fun more hle => ?_⟩, fun compact => ?_⟩
  · have hmore : run more source Env.standard = run fuel source Env.standard :=
      fuelExtends_run source fuel more hle Env.standard hfin
    have hrun := runFile_eq (hmore.symm ▸ hresult)
    rwa [hmore] at hrun
  · cases hs : Script.ofString source with
    | error e =>
      rw [run_of_error hs] at hresult
      obtain rfl := eq_error_of_mapError hresult
      have hsyntax := Script.isSyntax_of_ofString hs
      refine ⟨fun e' he' _ => ?_, fun hnone => absurd hsyntax (hnone e rfl)⟩
      cases he'
      exact checkFile_of_error hs compact
    | ok s =>
      refine ⟨fun e he hsyntax => ?_, fun _ => ⟨s, rfl, checkFile_of_ok hs compact⟩⟩
      rw [he] at hresult
      exact absurd hsyntax (run_not_isSyntax hs hresult)

/-- Lines are printed, and then a name is not bound. -/
theorem agrees_with_run_failing :
    let source := "(print list (list)) (nope list)"
    ∃ (o : Outcome Value) (e : ScriptError), EndsWith (run · source) Env.standard o ∧
      o.result = .error (.error e) ∧ ∃ enough, ∀ fuel ≥ enough,
        runFile fuel (fileText (some (Bytes.utf8 source))) =
          .ofRun ["<builtin op: list>", "()"] (.error e) := by
  intro source
  have hlines : (Console.empty.receiveAll (run 5 source Env.standard).events).lines =
      ["<builtin op: list>", "()"] := by decide +kernel
  have hfails : (run 5 source Env.standard).failure?.isSome = true := by decide +kernel
  obtain ⟨e, he⟩ := Option.isSome_iff_exists.mp hfails
  have hresult := Outcome.failure?_eq_some_iff.mp he
  have hends : EndsWith (run · source) Env.standard (run 5 source Env.standard) :=
    ⟨by rw [Outcome.Finished, hresult]; nofun, 5, rfl⟩
  obtain ⟨result, hresult', hrun, -⟩ := agrees_with_run hends
  obtain rfl := eq_error_of_mapError (hresult.symm.trans hresult')
  rw [hlines] at hrun
  exact ⟨_, e, hends, hresult, hrun⟩

end Program

end SnapLisp
