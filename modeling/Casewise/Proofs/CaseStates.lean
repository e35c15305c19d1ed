import Casewise.Proofs.Symbolic.Invariant
import Casewise.Proofs.Writing

namespace Casewise

open Sandbox

namespace Execution

variable {α β : Type} {act : Execution α} {x : Exchange} {P Q : α → Exchange → Prop} {E : AnalysisError → Prop}

def Ends (act : Execution α) (x : Exchange) (P : α → Exchange → Prop) (E : AnalysisError → Prop) : Prop :=
  (∃ a x', act.run x = (.ok a, x') ∧ P a x') ∨ ∃ e x', act.run x = (.error e, x') ∧ E e

theorem ends_pure {a : α} (h : P a x) : Ends (pure a) x P E := .inl ⟨a, x, rfl, h⟩

theorem Ends.bind {f : α → Execution β} {R : β → Exchange → Prop} (h : Ends act x P E)
    (hf : ∀ a x', P a x' → Ends (f a) x' R E) : Ends (act >>= f) x R E := by
  obtain ⟨a, x', hrun, ha⟩ | ⟨e, x', hrun, he⟩ := h
  · rw [Ends, run_bind_ok hrun]
    exact hf a x' ha
  · exact .inr ⟨e, x', run_bind_error hrun, he⟩

theorem Ends.mono (h : Ends act x P E) (hpq : ∀ a x', P a x' → Q a x') : Ends act x Q E := by
  obtain ⟨a, x', hrun, ha⟩ | hfails := h
  · exact .inl ⟨a, x', hrun, hpq a x' ha⟩
  · exact .inr hfails

theorem ends_mapM {f : α → Execution β} {as : List α} {I : Exchange → Prop} {R : α → β → Prop}
    (hf : ∀ a ∈ as, ∀ y, I y → Ends (f a) y (fun b z => R a b ∧ I z) E) (hx : I x) :
    Ends (as.mapM f) x (fun bs y => List.Forall₂ R as bs ∧ I y) E := by
  induction as generalizing x with
  | nil => exact ends_pure ⟨.nil, hx⟩
  | cons a as ih =>
    obtain ⟨ha, hrest⟩ := List.forall_mem_cons.mp hf
    rw [List.mapM_cons]
    refine (ha x hx).bind ?_
    rintro b y ⟨hb, hy⟩
    refine (ih hrest hy).bind ?_
    rintro bs z ⟨hbs, hz⟩
    exact ends_pure ⟨.cons hb hbs, hz⟩

theorem ends_mapM_all {f : α → Execution β} {as : List α} {I : Exchange → Prop} {R : β → Prop}
    (hf : ∀ a ∈ as, ∀ y, I y → Ends (f a) y (fun b z => R b ∧ I z) E) (hx : I x) :
    Ends (as.mapM f) x (fun bs y => (∀ b ∈ bs, R b) ∧ I y) E := by
  refine (ends_mapM (R := fun _ => R) hf hx).mono fun bs y h => ⟨?_, h.2⟩
  obtain ⟨hbs, -⟩ := h
  clear hf
  induction hbs with
  | nil => simp
  | cons hb _ ih => exact List.forall_mem_cons.mpr ⟨hb, ih⟩

theorem ends_foldlM {f : β → α → Execution β} {as : List α} {I : Exchange → Prop}
    (hf : ∀ a ∈ as, ∀ b y, I y → Ends (f b a) y (fun _ z => I z) E) (start : β) (hx : I x) :
    Ends (as.foldlM f start) x (fun _ y => I y) E := by
  induction as generalizing start x with
  | nil => exact ends_pure hx
  | cons a as ih =>
    obtain ⟨ha, hrest⟩ := List.forall_mem_cons.mp hf
    rw [List.foldlM_cons]
    exact (ha start x hx).bind fun b y hy => ih hrest b hy

theorem ends_ite {c : Prop} [Decidable c] {other : Execution α} (ht : c → Ends act x P E)
    (hf : ¬ c → Ends other x P E) : Ends (if c then act else other) x P E := by
  split
  · next hc => exact ht hc
  · next hc => exact hf hc

theorem ends_ite_bind {c : Prop} [Decidable c] {other : Execution α} {f : α → Execution β} {R : β → Exchange → Prop}
    (ht : c → Ends act x P E) (he : ¬ c → Ends other x P E) (hf : ∀ a x', P a x' → Ends (f a) x' R E) :
    Ends (if c then act >>= f else other >>= f) x R E :=
  ends_ite (fun hc => (ht hc).bind hf) fun hc => (he hc).bind hf

theorem ends_orTooLong_of {o : Option α} (h : o = none → E .tooLong) :
    Ends (orTooLong o) x (fun a y => o = some a ∧ y = x) E := by
  cases o with
  | none => exact .inr ⟨.tooLong, x, rfl, h rfl⟩
  | some a => exact ends_pure ⟨rfl, rfl⟩

theorem ends_ofSample {e : Except SampleError α} (h : ∀ cause, e = .error cause → E (.ofSample cause)) :
    Ends (ofSample e) x (fun _ y => y = x) E := by
  cases e with
  | ok a => exact ends_pure rfl
  | error cause => exact .inr ⟨_, x, rfl, h cause rfl⟩

theorem ends_ofReply {e : Except DecodeError α} (h : ∀ cause, e = .error cause → E (.badReply cause)) :
    Ends (ofReply e) x (fun a y => e = .ok a ∧ y = x) E := by
  cases e with
  | ok a => exact ends_pure ⟨rfl, rfl⟩
  | error cause => exact .inr ⟨_, x, rfl, h cause rfl⟩

end Execution

namespace CaseResult

structure Running (r : CaseResult) : Prop where
  status : r.status = .running
  warnings : ∀ d ∈ r.diagnostics, d.severity = .warning

structure Failed (r : CaseResult) (reason : FailureKind) (message : String) : Prop where
  status : r.status = .failed
  outcome : r.outcome = some (.failure reason message)
  error : ∃ warnings d, r.diagnostics = warnings ++ [d] ∧ (∀ w ∈ warnings, w.severity = .warning) ∧
    d.severity = .error ∧ d.code = reason.code ∧ d.message = message

structure Completed (r : CaseResult) (returns : Ty) (params : List Ty) (errors : List String) : Prop where
  status : r.status = .completed
  outcome : r.outcome = some (.success returns params)
  errors : (r.diagnostics.filter (·.isError)).map (·.code) = errors

variable {r : CaseResult} {x : Exchange}

theorem filter_isError_of_warnings {ds : List Diagnostic} (h : ∀ d ∈ ds, d.severity = .warning) :
    ds.filter (·.isError) = [] := by
  refine List.filter_eq_nil_iff.mpr fun d hd => ?_
  simp [Diagnostic.isError, h d hd]

theorem Running.note (h : r.Running) {ds : List Diagnostic} (hds : ∀ d ∈ ds, d.severity = .warning) :
    (r.note ds).Running :=
  ⟨h.status, List.forall_mem_append.mpr ⟨h.warnings, hds⟩⟩

theorem Running.fail (h : r.Running) (reason : FailureKind) (message : String) (notes : List String) :
    ∃ r', (r.fail reason message notes).run x = (.ok r', x) ∧ r'.Failed reason message := by
  let d := { Diagnostic.error reason.code message r.directive.span with caseLabel := some r.label, notes }
  have hrun : (r.fail reason message notes).run x =
      (.ok { r.note [d] with outcome := some (.failure reason message), status := .failed }, x) := by
    simp only [CaseResult.fail, move, CaseResult.note, h.status]
    rfl
  exact ⟨_, hrun, rfl, rfl, r.diagnostics, d, rfl, h.warnings, rfl, rfl, rfl⟩

theorem Running.succeed (h : r.Running) (returns : Ty) (params : List Ty) :
    ∃ r', (r.succeed returns params).run x = (.ok r', x) ∧ r'.Completed returns params [] := by
  have hrun : (r.succeed returns params).run x =
      (.ok { r with outcome := some (.success returns params), status := .completed }, x) := by
    simp only [CaseResult.succeed, move, h.status]
    rfl
  exact ⟨_, hrun, rfl, rfl, by simp [filter_isError_of_warnings h.warnings]⟩

end CaseResult

def Sandbox.Answer.WellFormed : Answer → Prop
  | .returned returns params => (∃ t, Ty.decode returns = .ok t) ∧ ∀ p ∈ params, ∃ t, Ty.decode p = .ok t
  | _ => True

namespace Case

inductive Finds (ctx : CaseContext) (c : Case) (x : Exchange) : Ty → List Ty → Prop
  | interpreted {report : Symbolic.Report} (symbolic : c.isSymbolic = true)
      (run : (Symbolic.run (c.setting ctx) ctx.function.name (c.arguments.map CaseValue.type)).1 = .ok report)
      (returns : report.alwaysRaises = false) : Finds ctx c x report.returns report.params
  | interpretedRaise {report : Symbolic.Report} (symbolic : c.isSymbolic = true)
      (run : (Symbolic.run (c.setting ctx) ctx.function.name (c.arguments.map CaseValue.type)).1 = .ok report)
      (raises : report.alwaysRaises = true) (expected : c.expectsThrow = true) :
      Finds ctx c x (.throws (some (report.raises.head?.getD ""))) report.params
  | returned {returns : Datum} {params : List Datum} {t : Ty} {ts : List Ty} (concrete : c.isSymbolic = false)
      (answer : x.answers.head? = some (.returned returns params)) (decoded : Ty.decode returns = .ok t)
      (decodedParams : params.mapM Ty.decode = .ok ts) : Finds ctx c x t ts
  | raised {exception message : String} (concrete : c.isSymbolic = false)
      (answer : x.answers.head? = some (.raised exception message)) (expected : c.expectsThrow = true) :
      Finds ctx c x (.throws (some exception)) ((c.arguments.filterMap CaseValue.datum?).map Ty.ofDatum)

structure Writable (ctx : CaseContext) (c : Case) : Prop where
  arguments : ∀ v ∈ c.arguments, v.text?.isSome = true
  mocks : ∀ m ∈ (ctx.chainOf c).mocks, m.substitute.text?.isSome = true
  expected : ∀ v, c.expected = some v → v.text?.isSome = true

def wanted (c : Case) (expected : CaseValue) : Ty :=
  if c.isSymbolic then (expectedType expected).widen else expectedType expected

def misses (c : Case) (returns : Ty) : Bool := c.expected.any fun e => !returns.assignable (c.wanted e)

def Ran (ctx : CaseContext) (c : Case) (x : Exchange) (r : CaseResult) : Prop :=
  (∃ reason message, r.Failed reason message) ∨
    ∃ returns params, r.Completed returns params [] ∧ c.Finds ctx x returns params

def Settled (ctx : CaseContext) (c : Case) (x : Exchange) (r : CaseResult) : Prop :=
  (∃ reason message, r.Failed reason message) ∨
    ∃ returns params, r.Completed returns params (if c.misses returns then ["E400"] else []) ∧
      c.Finds ctx x returns params

section

variable {ctx : CaseContext} {c : Case} {x x' : Exchange} {r : CaseResult} {E : AnalysisError → Prop}

theorem ends_fail (h : r.Running) (reason : FailureKind) (message : String) (notes : List String) :
    Execution.Ends (r.fail reason message notes) x' (fun r y => c.Ran ctx x r ∧ y = x') E := by
  obtain ⟨r', hrun, hr'⟩ := h.fail reason message notes
  exact .inl ⟨r', x', hrun, .inl ⟨reason, message, hr'⟩, rfl⟩

theorem ends_succeed (h : r.Running) {returns : Ty} {params : List Ty} (hf : c.Finds ctx x returns params) :
    Execution.Ends (r.succeed returns params) x' (fun r y => c.Ran ctx x r ∧ y = x') E := by
  obtain ⟨r', hrun, hr'⟩ := h.succeed returns params
  exact .inl ⟨r', x', hrun, .inr ⟨returns, params, hr', hf⟩, rfl⟩

theorem ends_throw (h : r.Running) {exception message : String} {params : List Ty}
    (hf : c.expectsThrow = true → c.Finds ctx x (.throws (some exception)) params) :
    Execution.Ends (r.throw c exception message params) x' (fun r y => c.Ran ctx x r ∧ y = x') E := by
  unfold CaseResult.throw
  split
  · next hexpected => exact ends_succeed h (hf hexpected)
  · exact ends_fail h _ _ _

theorem ends_runSymbolic (h : r.Running) (hs : c.isSymbolic = true) :
    Execution.Ends (c.runSymbolic ctx r) x (fun r y => c.Ran ctx x r ∧ y = x) E := by
  unfold runSymbolic
  have hnoted : (r.note (Symbolic.run (c.setting ctx) ctx.function.name (c.arguments.map CaseValue.type)).2).Running :=
    h.note fun d hd => Symbolic.severity_of_mem_runWithin hd
  generalize hrun : Symbolic.run (c.setting ctx) ctx.function.name (c.arguments.map CaseValue.type) = result at hnoted
  obtain ⟨result, warnings⟩ := result
  dsimp only at hnoted ⊢
  split
  · exact ends_fail hnoted _ _ _
  · exact ends_fail hnoted _ _ _
  · next report =>
    have hreport := congrArg Prod.fst hrun
    split
    · next hraises => exact ends_throw hnoted fun hexpected => .interpretedRaise hs hreport hraises hexpected
    · next hraises =>
      refine ends_succeed (hnoted.note ?_) (.interpreted hs hreport (Bool.not_eq_true _ ▸ hraises))
      exact List.forall_mem_map.mpr fun _ _ => rfl

theorem ends_ask (request : Request) :
    Execution.Ends (liftM (ask request) : Execution Answer) x
      (fun a y => y.answers = x.answers.tail ∧ (x.answers.head? = some a ∨ ∃ reason, a = .crashed reason)) E := by
  refine .inl ?_
  cases x with
  | mk answers requests =>
    cases answers with
    | nil => exact ⟨_, _, rfl, rfl, .inr ⟨_, rfl⟩⟩
    | cons a rest => exact ⟨_, _, rfl, rfl, .inl rfl⟩

structure Allows (ctx : CaseContext) (c : Case) (x : Exchange) (E : AnalysisError → Prop) : Prop where
  arguments : c.arguments.mapM CaseValue.text? = none → E .tooLong
  mocks : ∀ m ∈ (ctx.chainOf c).mocks, ∀ cause, m.payload = .error cause → E (.ofSample cause)
  timeout : ctx.config.timeout.brief = none → E .badTimeout
  reply : ∀ returns params, x.answers.head? = some (.returned returns params) → ∀ d ∈ returns :: params,
    ∀ cause, Ty.decode d = .error cause → E (.badReply cause)
  expected : ∀ v, c.expected = some v → (c.wanted v).name? = none → E .tooLong
  found : ∀ returns params, c.Finds ctx x returns params → returns.name? = none → E .tooLong

theorem ends_runConcrete (ha : c.Allows ctx x E) (h : r.Running) (hs : c.isSymbolic = false) :
    Execution.Ends (c.runConcrete ctx r) x (fun r y => c.Ran ctx x r ∧ y.answers = x.answers.tail) E := by
  unfold runConcrete request
  refine Execution.Ends.bind (P := fun _ y => y = x) ?_ fun request y hy => ?_
  · refine (Execution.ends_mapM_all (I := (· = x)) (R := fun _ => True) (fun m hm y hy => ?_) rfl).bind
      fun _ y hy => Execution.ends_pure hy.2
    exact (Execution.ends_ofSample (ha.mocks m hm)).mono fun _ _ hz => ⟨trivial, hz.trans hy⟩
  subst hy
  refine (ends_ask request).bind ?_
  rintro a z ⟨hz, hhead⟩
  have hdone {act : Execution CaseResult} (hact : Execution.Ends act z (fun r w => c.Ran ctx y r ∧ w = z) E) :
      Execution.Ends act z (fun r w => c.Ran ctx y r ∧ w.answers = y.answers.tail) E :=
    hact.mono fun r w hran => ⟨hran.1, hran.2 ▸ hz⟩
  cases a with
  | timedOut =>
    dsimp only
    split
    · exact hdone (ends_fail h _ _ _)
    · next hnone => exact .inr ⟨.badTimeout, z, rfl, ha.timeout hnone⟩
  | crashed reason => exact hdone (ends_fail h _ _ _)
  | raised exception message =>
    have hanswer := hhead.resolve_right (by simp)
    exact hdone (ends_throw h fun hexpected => .raised hs hanswer hexpected)
  | returned returns params =>
    have hanswer := hhead.resolve_right (by simp)
    have hreply := ha.reply returns params hanswer
    refine (Execution.ends_ofReply (hreply returns (by simp))).bind ?_
    rintro t w ⟨ht, rfl⟩
    refine (Execution.ends_mapM (I := (· = w)) (R := fun p t => Ty.decode p = .ok t) (fun p hp v hv => ?_) rfl).bind ?_
    · exact (Execution.ends_ofReply (hreply p (by simp [hp]))).mono fun t u hu => ⟨hu.1, hu.2.trans hv⟩
    · rintro ts v ⟨hts, rfl⟩
      exact hdone (ends_succeed h (.returned hs hanswer ht (mapM_eq_ok.mpr hts)))

theorem printable_wanted {expected : CaseValue} (h : expected.text?.isSome = true) : (c.wanted expected).Printable := by
  have htype : (expectedType expected).Printable := by
    unfold expectedType
    split
    · split <;> rfl
    · exact CaseValue.printable_type h
  unfold wanted
  split
  · exact Ty.printable_widen htype
  · exact htype

theorem ends_validate (ha : c.Allows ctx x E) {expected : CaseValue} (he : c.expected = some expected)
    {P : Exchange → Prop} (hr : c.Ran ctx x r) (hx' : P x') :
    Execution.Ends (c.validate expected r) x' (fun r y => c.Settled ctx x r ∧ P y) E := by
  unfold validate
  rcases hr with ⟨reason, message, hr⟩ | ⟨returns, params, hr, hf⟩
  · rw [hr.outcome]
    exact Execution.ends_pure ⟨.inl ⟨reason, message, hr⟩, hx'⟩
  · rw [hr.outcome]
    have hmisses : c.misses returns = !returns.assignable (c.wanted expected) := by simp [misses, he]
    refine Execution.ends_ite (c := returns.assignable (c.wanted expected) = true) (fun hmet => ?_) fun hmissed => ?_
    · refine Execution.ends_pure ⟨.inr ⟨returns, params, ?_, hf⟩, hx'⟩
      simpa [hmisses, hmet] using hr
    · refine (Execution.ends_orTooLong_of (ha.expected expected he)).bind ?_
      rintro _ y ⟨-, rfl⟩
      refine (Execution.ends_orTooLong_of (ha.found returns params hf)).bind ?_
      rintro _ z ⟨-, rfl⟩
      refine Execution.ends_pure ⟨.inr ⟨returns, params, ⟨hr.status, hr.outcome, ?_⟩, hf⟩, hx'⟩
      have herrors : r.diagnostics.filter (·.isError) = [] := List.map_eq_nil_iff.mp hr.errors
      simp only [CaseResult.note, List.filter_append, herrors, hmisses, Bool.not_eq_true _ ▸ hmissed]
      rfl

theorem ends_runUnskipped (ha : c.Allows ctx x E) : Execution.Ends (c.runUnskipped ctx) x
    (fun r y => c.Settled ctx x r ∧ (y = x ∨ y.answers = x.answers.tail)) E := by
  have hstart : Execution.Ends ((CaseResult.start c).move .running) x (fun r y => r.Running ∧ y = x) E :=
    .inl ⟨{ CaseResult.start c with status := .running }, x, rfl, ⟨rfl, by simp [CaseResult.start]⟩, rfl⟩
  unfold runUnskipped
  refine hstart.bind ?_
  rintro r y ⟨hr, rfl⟩
  refine (Execution.ends_orTooLong_of ha.arguments).bind ?_
  rintro _ z ⟨-, rfl⟩
  split
  · next e _ =>
    obtain ⟨r', hrun, hr'⟩ := hr.fail .thrown ("case '" ++ c.label ++ "' raised TypeError: " ++ e.message) []
    exact .inl ⟨r', z, hrun, .inl ⟨_, _, hr'⟩, .inl rfl⟩
  · refine Execution.ends_ite_bind (c := c.isSymbolic = true)
      (P := fun r w => c.Ran ctx z r ∧ (w = z ∨ w.answers = z.answers.tail)) (fun hs => ?_) (fun hs => ?_) ?_
    · exact (ends_runSymbolic hr hs).mono fun _ _ hran => hran.imp_right .inl
    · exact (ends_runConcrete ha hr (Bool.not_eq_true _ ▸ hs)).mono fun _ _ hran => hran.imp_right .inr
    · rintro r w ⟨hr, hz⟩
      dsimp only
      split
      · next expected he => exact ends_validate ha he hr hz
      · next he =>
        refine Execution.ends_pure ⟨hr.imp id ?_, hz⟩
        rintro ⟨returns, params, hc, hf⟩
        exact ⟨returns, params, by simpa [misses, he] using hc, hf⟩

theorem Writable.allows (hw : c.Writable ctx) (ht : ctx.config.timeout.brief = none → E .badTimeout)
    (hl : ∀ returns params, c.Finds ctx x returns params → ¬ returns.Printable → E .tooLong)
    (ha : ∀ a, x.answers.head? = some a → a.WellFormed) : c.Allows ctx x E where
  arguments hnone := absurd (mapM_isSome.mpr hw.arguments) (by simp [hnone])
  mocks m hm cause he := by
    obtain ⟨p, hp⟩ := Mock.payload_isOk (hw.mocks m hm)
    cases hp.symm.trans he
  timeout := ht
  reply returns params hanswer d hd cause he := by
    obtain ⟨t, ht⟩ : ∃ t, Ty.decode d = .ok t := by
      rcases List.mem_cons.mp hd with rfl | hd
      · exact (ha _ hanswer).1
      · exact (ha _ hanswer).2 d hd
    cases ht.symm.trans he
  expected v hv hnone := absurd (Ty.name?_isSome (printable_wanted (c := c) (hw.expected v hv))) (by simp [hnone])
  found returns params hf hnone := hl returns params hf (by simp [Ty.printable_iff, hnone])

theorem Settled.finds (h : c.Settled ctx x r) {returns : Ty} {params : List Ty}
    (ho : r.outcome = some (.success returns params)) : c.Finds ctx x returns params := by
  rcases h with ⟨reason, message, hfailed⟩ | ⟨returns', params', hcompleted, hfound⟩
  · rw [hfailed.outcome] at ho
    cases ho
  · rw [hcompleted.outcome] at ho
    cases ho
    exact hfound

/-- A case that is executed ends in a final state in which everything agrees: it is skipped without a word, or it failed
and its last diagnostic, the only error, says why, or it found types and the one possible error is that they are not
what is expected. -/
theorem execute_ends_consistently (hw : c.Writable ctx) (ht : ctx.config.timeout.brief.isSome = true)
    (ha : ∀ a, x.answers.head? = some a → a.WellFormed)
    (hf : ∀ returns params, c.Finds ctx x returns params → returns.Printable) :
    ∃ r, ((c.execute ctx).run x).1 = .ok r ∧
      ((c.skipped = true ∧ r.status = .skipped ∧ r.outcome = some .skipped ∧ r.diagnostics = []) ∨
        (c.skipped = false ∧ ∃ reason message, r.Failed reason message) ∨
        (c.skipped = false ∧ ∃ returns params, c.Finds ctx x returns params ∧
          r.Completed returns params (if c.misses returns then ["E400"] else []))) := by
  unfold execute
  cases hs : c.skipped with
  | true =>
    exact ⟨{ CaseResult.start c with status := .skipped, outcome := some .skipped }, rfl, .inl ⟨rfl, rfl, rfl, rfl⟩⟩
  | false =>
    have hends := ends_runUnskipped (hw.allows (E := fun _ => False) (fun hnone => by simp [hnone] at ht)
      (fun returns params hfound hp => hp (hf returns params hfound)) ha)
    obtain ⟨r, y, hrun, hr, _⟩ | ⟨e, y, hrun, hfalse⟩ := hends
    · refine ⟨r, congrArg Prod.fst hrun, .inr ?_⟩
      rcases hr with hfailed | ⟨returns, params, hcompleted, hfound⟩
      · exact .inl ⟨rfl, hfailed⟩
      · exact .inr ⟨rfl, returns, params, hfound, hcompleted⟩
    · exact hfalse.elim

end

def identityContext : CaseContext where
  module := { file := "identity", functions := [("identity", identity)] }
  source := ""
  function := ⟨identity, .point "identity" 1 1, []⟩
  mocks := .empty
  config := {}
where
  identity : FunctionDef Stmt :=
    ⟨default, "identity", { ordinary := ["x"] }, [.returns default (some (.name default "x"))], [], []⟩

def identityCase : Case where
  label := "case 1"
  directive := ⟨.point "identity" 1 1, .oneCase none []⟩
  arguments := [.symbolic .boolean]
  expected := some (.symbolic .number)

theorem identityCase_ends_consistently :
    ∃ r, ((identityCase.execute identityContext).run ⟨[], []⟩).1 = .ok r ∧
      ((identityCase.skipped = true ∧ r.status = .skipped ∧ r.outcome = some .skipped ∧ r.diagnostics = []) ∨
        (identityCase.skipped = false ∧ ∃ reason message, r.Failed reason message) ∨
        (identityCase.skipped = false ∧ ∃ returns params, identityCase.Finds identityContext ⟨[], []⟩ returns params ∧
          r.Completed returns params (if identityCase.misses returns then ["E400"] else []))) := by
  have hrun : (Symbolic.run (identityCase.setting identityContext) "identity" [.boolean]).1 =
      .ok ⟨.boolean, [.boolean], [], true⟩ := rfl
  have hexpected (v : CaseValue) (h : identityCase.expected = some v) : v.text?.isSome = true := Option.some.inj h ▸ rfl
  refine execute_ends_consistently ⟨by decide, by decide, hexpected⟩ rfl (by simp) ?_
  intro returns params hfound
  cases hfound with
  | interpreted _ run _ =>
    obtain rfl := Except.ok.inj (hrun.symm.trans run)
    rfl
  | interpretedRaise => rfl
  | returned concrete => cases concrete
  | raised => rfl

end Case

end Casewise
