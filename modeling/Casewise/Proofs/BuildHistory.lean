import Casewise.Build
import Casewise.Proofs.Bindings
import Casewise.Proofs.Failing
import Mathlib.Algebra.GroupWithZero.Nat
import Mathlib.Data.List.TakeWhile

namespace Casewise

open Sandbox

namespace BuildSession

inductive Call where
  | start
  | transform (file : SourceFile)
  | finish

def call (state : BuildSession × Exchange) : Call → BuildSession × Exchange
  | .start => (state.1.start, state.2)
  | .transform f =>
    match (state.1.transform f).run state.2 with
    | (.ok (next, _), x) => (next, x)
    | (.error _, x) => (state.1, x)
  | .finish => state

def after (config : Config) (x : Exchange) (calls : List Call) : BuildSession × Exchange :=
  calls.foldl call ({ config }, x)

def isWanted (config : Config) (f : SourceFile) : Bool :=
  config.build.selects? f.name == some true && Tag.isTagged f.text

def note (config : Config) (log : List (String × AnalysisResult) × Exchange) :
    Call → List (String × AnalysisResult) × Exchange
  | .start => ([], log.2)
  | .transform f =>
    if isWanted config f then
      match (Analysis.file f config.analysis).run log.2 with
      | (.ok r, x) => (log.1 ++ [(f.name, r)], x)
      | (.error _, x) => (log.1, x)
    else log
  | .finish => log

def history (config : Config) (x : Exchange) (calls : List Call) : List (String × AnalysisResult) × Exchange :=
  calls.foldl (note config) ([], x)

def stops (config : Config) (r : AnalysisResult) : Bool := config.build.failOnError && r.hasErrors

def shown (config : Config) (r : AnalysisResult) : List Diagnostic :=
  if stops config r then r.diagnostics.takeWhile (!·.isError) else r.diagnostics

theorem after_append (config : Config) (x : Exchange) (calls : List Call) (c : Call) :
    after config x (calls ++ [c]) = call (after config x calls) c := by
  simp [after]

theorem history_append (config : Config) (x : Exchange) (calls : List Call) (c : Call) :
    history config x (calls ++ [c]) = note config (history config x calls) c := by
  simp [history]

theorem noted_eq_shown (s : BuildSession) (r : AnalysisResult) : s.noted r.diagnostics = shown s.config r := by
  unfold noted shown stops
  by_cases hf : s.config.build.failOnError
  · cases he : r.hasErrors with
    | true => simp [hf]
    | false =>
      have hnone : ∀ d ∈ r.diagnostics, (!d.isError) = true := by
        simpa [AnalysisResult.hasErrors] using he
      simp [hf, List.takeWhile_eq_self_iff.mpr hnone]
  · simp [hf]

theorem record_answer (s : BuildSession) (path : String) (r : AnalysisResult) :
    (stops s.config r = false ∧ (s.record path r).2 = .analysed r) ∨
      (stops s.config r = true ∧ ∃ d, r.diagnostics.find? (·.isError) = some d ∧
        (s.record path r).2 = .failed (line path d) r.diagnostics) := by
  have hrest : r.diagnostics.drop (shown s.config r).length =
      if stops s.config r then r.diagnostics.dropWhile (!·.isError) else [] := by
    unfold shown
    split
    · have hsplit := List.takeWhile_append_dropWhile (p := fun d : Diagnostic => !d.isError) (l := r.diagnostics)
      exact (congrArg _ hsplit.symm).trans List.drop_left
    · exact List.drop_length
  unfold record
  simp only [noted_eq_shown, hrest]
  cases hs : stops s.config r with
  | false => exact .inl ⟨rfl, rfl⟩
  | true =>
    have herror : (r.diagnostics.find? (·.isError)).isSome = true := by
      simp only [stops, Bool.and_eq_true] at hs
      rw [List.find?_isSome]
      simpa [AnalysisResult.hasErrors] using hs.2
    obtain ⟨d, hd⟩ := Option.isSome_iff_exists.mp herror
    refine .inr ⟨rfl, d, hd, ?_⟩
    rw [List.find?_eq_head?_dropWhile_not] at hd
    obtain ⟨rest, hdrop⟩ := List.head?_eq_some_iff.mp hd
    simp [hdrop]

theorem record_state (s : BuildSession) (path : String) (r : AnalysisResult) :
    (s.record path r).1 = { s with
      results := s.results.set path r
      warnings := s.warnings ++ (shown s.config r).map (line path) } := by
  unfold record
  rw [← noted_eq_shown]
  dsimp only
  split <;> rfl

variable {s : BuildSession}

theorem isWanted_eq (s : BuildSession) (f : SourceFile) :
    isWanted s.config f = (s.wants? f.name f.text == some true) := by
  unfold wants? isWanted
  cases s.config.build.selects? f.name with
  | none => rfl
  | some b => cases b <;> cases Tag.isTagged f.text <;> rfl

theorem run_transform_unwanted (x : Exchange) {f : SourceFile} (h : s.wants? f.name f.text = some false) :
    (s.transform f).run x = (.ok (s, .unwanted), x) := by
  unfold transform
  rw [h]
  rfl

theorem call_unwanted (x : Exchange) {f : SourceFile} (h : isWanted s.config f = false) :
    call (s, x) (.transform f) = (s, x) := by
  rw [isWanted_eq] at h
  cases hw : s.wants? f.name f.text with
  | none =>
    have hrun : (s.transform f).run x = (.error .badPattern, x) := by
      unfold transform
      rw [hw]
      rfl
    simp only [call, hrun]
  | some b =>
    cases b with
    | false => simp only [call, run_transform_unwanted x hw]
    | true => simp [hw] at h

theorem run_transform_wanted {x x' : Exchange} {f : SourceFile} {r : AnalysisResult} (h : isWanted s.config f = true)
    (hr : (Analysis.file f s.config.analysis).run x = (.ok r, x')) :
    (s.transform f).run x = (.ok (s.record f.name r), x') := by
  have hw : s.wants? f.name f.text = some true := by simpa [isWanted_eq] using h
  unfold transform
  rw [hw]
  exact run_bind_ok hr

theorem run_transform_answer {config : Config} {x y : Exchange} {f : SourceFile} {r : AnalysisResult}
    (hs : s.config = config) (hw : isWanted config f = true)
    (hr : (Analysis.file f config.analysis).run x = (.ok r, y)) :
    ∃ step, (s.transform f).run x = (.ok ((call (s, x) (.transform f)).1, step), y) ∧
      ((stops config r = false ∧ step = .analysed r) ∨
        (stops config r = true ∧ ∃ d, r.diagnostics.find? (·.isError) = some d ∧
          step = .failed (line f.name d) r.diagnostics)) := by
  subst hs
  have hrun := run_transform_wanted hw hr
  refine ⟨(s.record f.name r).2, ?_, record_answer s f.name r⟩
  simp only [call, hrun]

theorem call_failed {x x' : Exchange} {f : SourceFile} {e : AnalysisError} (h : isWanted s.config f = true)
    (hr : (Analysis.file f s.config.analysis).run x = (.error e, x')) : call (s, x) (.transform f) = (s, x') := by
  have hw : s.wants? f.name f.text = some true := by simpa [isWanted_eq] using h
  have hrun : (s.transform f).run x = (.error e, x') := by
    unfold transform
    rw [hw]
    exact run_bind_error hr
  simp only [call, hrun]

structure Follows (config : Config) (state : BuildSession × Exchange)
    (log : List (String × AnalysisResult) × Exchange) : Prop where
  settings : state.1.config = config
  results : state.1.results = Bindings.ofPairs log.1
  warnings : state.1.warnings = log.1.flatMap fun e => (shown config e.2).map (line e.1)
  exchange : state.2 = log.2

variable {config : Config} {entries : List (String × AnalysisResult)} {x x' : Exchange}

theorem Follows.record (h : Follows config (s, x) (entries, x)) (path : String) (r : AnalysisResult) :
    Follows config ((s.record path r).1, x') (entries ++ [(path, r)], x') := by
  obtain ⟨rfl, hresults, hwarnings, -⟩ := h
  rw [record_state]
  refine ⟨rfl, ?_, ?_, rfl⟩
  · rw [Bindings.ofPairs_append, ← hresults]
  · simp [← hwarnings]

theorem Follows.call {state : BuildSession × Exchange} {log : List (String × AnalysisResult) × Exchange}
    (h : Follows config state log) (c : Call) : Follows config (BuildSession.call state c) (note config log c) := by
  obtain ⟨s, x⟩ := state
  obtain ⟨entries, y⟩ := log
  obtain rfl : x = y := h.exchange
  cases c with
  | start => exact ⟨h.settings, rfl, rfl, rfl⟩
  | finish => exact h
  | transform f =>
    obtain rfl := h.settings
    cases hw : isWanted s.config f with
    | false =>
      rw [call_unwanted x hw, note, hw]
      exact h
    | true =>
      rcases hr : (Analysis.file f s.config.analysis).run x with ⟨e | r, x'⟩
      · simp only [call_failed hw hr, note, hw, hr, if_true]
        exact ⟨rfl, h.results, h.warnings, rfl⟩
      · simp only [BuildSession.call, run_transform_wanted hw hr, note, hw, hr, if_true]
        exact h.record f.name r

theorem follows_after (config : Config) (x : Exchange) (calls : List Call) :
    Follows config (after config x calls) (history config x calls) := by
  induction calls using List.reverseRecOn with
  | nil => exact ⟨rfl, rfl, rfl, rfl⟩
  | append_singleton calls c ih =>
    rw [after_append, history_append]
    exact ih.call c

theorem errorCount_eq (s : BuildSession) : s.errorCount = (s.results.map (·.2.errorCount)).sum := by
  rw [List.sum_eq_foldl, List.foldl_map]
  rfl

theorem warningCount_eq (s : BuildSession) : s.warningCount = (s.results.map (·.2.warningCount)).sum := by
  rw [List.sum_eq_foldl, List.foldl_map]
  rfl

theorem summary_eq (s : BuildSession) : s.summary =
    "[nudo] Analysis complete: " ++ toString (s.results.map (·.2.errorCount)).sum ++ " error(s), " ++
      toString (s.results.map (·.2.warningCount)).sum ++ " warning(s)" := by
  rw [← errorCount_eq, ← warningCount_eq]
  rfl

/-- After any calls the results of a session are the latest ones of the files transformed since the last start, in the
order of their first transforms; its warnings are those of all these transforms, each cut before the error that stopped
it; the last line gives the sums over the results. A file that is not wanted changes nothing, and one whose analysis
fails leaves the session as it was. -/
theorem session_follows_history (config : Config) (x : Exchange) (calls : List Call) :
    (after config x calls).1.results.names = distinctTexts ((history config x calls).1.map (·.1)) ∧
    (∀ path r, (after config x calls).1.results.get? path = some r ↔
      ∃ before later, (history config x calls).1 = before ++ (path, r) :: later ∧ path ∉ later.map (·.1)) ∧
    (after config x calls).1.warnings =
      (history config x calls).1.flatMap (fun e => (shown config e.2).map (line e.1)) ∧
    (after config x calls).1.summary = "[nudo] Analysis complete: " ++
      toString ((after config x calls).1.results.map (·.2.errorCount)).sum ++ " error(s), " ++
      toString ((after config x calls).1.results.map (·.2.warningCount)).sum ++ " warning(s)" ∧
    (∀ f, isWanted config f = false → after config x (calls ++ [.transform f]) = after config x calls) ∧
    ∀ f r y, isWanted config f = true →
      (Analysis.file f config.analysis).run (after config x calls).2 = (.ok r, y) →
      ∃ step, ((after config x calls).1.transform f).run (after config x calls).2 =
          (.ok ((after config x (calls ++ [.transform f])).1, step), y) ∧
        ((stops config r = false ∧ step = .analysed r) ∨
          (stops config r = true ∧ ∃ d, r.diagnostics.find? (·.isError) = some d ∧
            step = .failed (line f.name d) r.diagnostics)) := by
  have h := follows_after config x calls
  refine ⟨?_, fun path r => ?_, h.warnings, summary_eq _, fun f hf => ?_, fun f r y hw hr => ?_⟩
  · rw [h.results, Bindings.names_ofPairs]
  · rw [h.results, Bindings.get?_ofPairs_eq_some]
  · rw [after_append]
    have hf' : isWanted (after config x calls).1.config f = false := by rw [h.settings, hf]
    exact call_unwanted _ hf'
  · rw [after_append]
    exact run_transform_answer h.settings hw hr

def strictConfig : Config := { build := { included := [.text "a"], failOnError := true } }

def brokenFile : SourceFile := ⟨"a", "# @nudo:pure", some (.error ⟨"invalid syntax", some 1, some 1⟩), none⟩

theorem brokenFile_stops_build :
    isWanted strictConfig brokenFile = true ∧
      (after strictConfig ⟨[], []⟩ [.transform brokenFile]).1.results.names = ["a"] ∧
      (after strictConfig ⟨[], []⟩ [.transform brokenFile]).1.warnings = [] ∧
      ∃ message ds y, (({ config := strictConfig } : BuildSession).transform brokenFile).run ⟨[], []⟩ =
        (.ok ((after strictConfig ⟨[], []⟩ [.transform brokenFile]).1, .failed message ds), y) := by
  have hw : isWanted strictConfig brokenFile = true := by decide +kernel
  have hlog : history strictConfig ⟨[], []⟩ [.transform brokenFile] =
      note strictConfig ([], ⟨[], []⟩) (.transform brokenFile) := rfl
  rw [note, hw] at hlog
  obtain ⟨hnames, -, hwarnings, -⟩ := session_follows_history strictConfig ⟨[], []⟩ [.transform brokenFile]
  obtain ⟨-, -, -, -, -, hanswer⟩ := session_follows_history strictConfig ⟨[], []⟩ []
  obtain ⟨step, hrun, ⟨hgoes, -⟩ | ⟨-, d, -, rfl⟩⟩ := hanswer brokenFile _ _ hw rfl
  · exact absurd hgoes (by decide)
  · rw [hlog] at hnames hwarnings
    exact ⟨hw, hnames, hwarnings, _, _, _, hrun⟩

end BuildSession

end Casewise
