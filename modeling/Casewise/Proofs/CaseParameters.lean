import Casewise.Proofs.FilledParameters
import Casewise.Proofs.Marking
import Casewise.Proofs.SignatureOrder

namespace Casewise

namespace Symbolic

theorem forall₂_of_mapM {α β : Type} {f : α → Run β} {as : List α} {bs : List β} {s s' : Session}
    (h : (as.mapM f).run s = (.ok bs, s')) : List.Forall₂ (fun a b => ∃ s s', (f a).run s = (.ok b, s')) as bs := by
  induction as generalizing s bs with
  | nil =>
    cases h
    exact .nil
  | cons a as ih =>
    rw [List.mapM_cons] at h
    obtain ⟨b, s₁, hb, h⟩ := run_bind_eq_ok h
    obtain ⟨rest, s₂, hrest, h⟩ := run_bind_eq_ok h
    cases h
    exact .cons ⟨s, s₁, hb⟩ (ih hrest)

theorem get?_values {k : Packing Run Value Expr} {entries : Bindings (Filling Value Expr)} {env : Env} {s s' : Session}
    (h : (k.values entries).run s = (.ok env, s')) {n : String} {v : Value} (hn : entries.get? n = some (.given v)) :
    env.get? n = some v := by
  induction entries generalizing s env with
  | nil => cases hn
  | cons b entries ih =>
    obtain ⟨m, f⟩ := b
    obtain ⟨a, s₁, ha, h⟩ := run_bind_eq_ok h
    obtain ⟨rest, s₂, hrest, h⟩ := run_bind_eq_ok h
    cases h
    by_cases hm : m = n
    · rw [Bindings.get?, if_pos hm] at hn ⊢
      cases hn
      cases ha
      rfl
    · rw [Bindings.get?, if_neg hm] at hn ⊢
      exact ih hrest hn

theorem exists_filled {m : Machine} {p : Params Expr} {name : String} {args : List Value} {keywords env : Env}
    {refuse : ArityError → Stop} {s s' : Session} (h : (m.bind p name args keywords refuse).run s = (.ok env, s')) :
    ∃ entries, p.fill name args keywords = .ok ⟨entries, none⟩ ∧
      (m.packing.values entries).run s = (.ok env, s') := by
  unfold Machine.bind at h
  split at h
  · next filled hfill =>
    obtain ⟨values, s₁, hvalues, h⟩ := run_bind_eq_ok h
    obtain ⟨entries, missing⟩ := filled
    cases missing with
    | some e => cases h
    | none =>
      cases h
      exact ⟨entries, hfill, hvalues⟩
  · cases h

theorem params_of_runFunction {m : Machine} {name : String} {args : List Ty} {report : Report} {s s' : Session}
    (h : (runFunction m name args).run s = (.ok report, s')) :
    ∃ f, m.module.functions.get? name = some f ∧ report.params.length = f.params.names.length ∧
      (f.params.declared.Nodup → ∀ (i : Nat) (t : Ty), args[i]? = some t → i < f.params.names.length →
        report.params[i]? = some (Value.type t).asType) := by
  unfold runFunction at h
  split at h
  · cases h
  · next f hf =>
    obtain ⟨env, s₁, henv, h⟩ := run_bind_eq_ok h
    obtain ⟨params, s₂, hparams, h⟩ := run_bind_eq_ok h
    obtain ⟨outcome, s₃, -, h⟩ := run_bind_eq_ok h
    cases h
    obtain ⟨hlength, hentries⟩ := List.forall₂_iff_get.mp (forall₂_of_mapM hparams)
    refine ⟨f, hf, hlength.symm, fun distinct i t ht hi => ?_⟩
    obtain ⟨entries, hfill, hvalues⟩ := exists_filled henv
    have hname : f.params.names[i]? = some f.params.names[i] := List.getElem?_eq_getElem hi
    have hgiven : (args.map Value.type)[i]? = some (.type t) := by rw [List.getElem?_map, ht, Option.map_some]
    have unique : (Bindings.names ([] : Env)).Nodup := List.nodup_nil
    have hfilled := ((Params.fills_of_fill distinct unique hfill).2 _ _).mpr (.position hname hgiven)
    have henv : env.get? f.params.names[i] = some (.type t) := get?_values hvalues hfilled
    -- the type is asked of the variable that the argument is bound to
    obtain ⟨_, _, hforce⟩ := hentries i hi (hlength ▸ hi)
    rw [List.get_eq_getElem, henv] at hforce
    have hentry : (Value.type t).asType = params.get ⟨i, hlength ▸ hi⟩ := Except.ok.inj (congrArg Prod.fst hforce)
    rw [hentry]
    exact List.getElem?_eq_getElem _

theorem params_of_run {cfg : Setting} {name : String} {args : List Ty} {report : Report}
    (h : (run cfg name args).1 = .ok report) :
    ∃ f, cfg.module.functions.get? name = some f ∧ report.params.length = f.params.names.length ∧
      (f.params.declared.Nodup → ∀ (i : Nat) (t : Ty), args[i]? = some t → i < f.params.names.length →
        ∃ t', t.Renumbered Number.mark t' ∧ report.params[i]? = some (Value.type t').asType) := by
  have hargs : List.Forall₂ (Ty.Renumbered Number.mark) args ((given cfg args).run ⟨cfg.number, 0⟩).1.2 :=
    forall₂_mapM (f := fun t => t.mapNumbers Number.mark) (fun _ m => ⟨m, rfl⟩) args ⟨cfg.number, 0⟩
  have hmodule : ((given cfg args).run ⟨cfg.number, 0⟩).1.1.module = cfg.module := rfl
  unfold run runWithin at h
  generalize (given cfg args).run ⟨cfg.number, 0⟩ = g at h hargs hmodule
  obtain ⟨f, hf, hlength, hparams⟩ := params_of_runFunction (Prod.ext h rfl)
  rw [machine_module, hmodule] at hf
  refine ⟨f, hf, hlength, fun distinct i t ht hi => ?_⟩
  obtain ⟨t', ht', hrenumbered⟩ : ∃ t', g.1.2[i]? = some t' ∧ t.Renumbered Number.mark t' := by
    obtain ⟨hsame, hentries⟩ := List.forall₂_iff_get.mp hargs
    obtain ⟨hi', rfl⟩ := List.getElem?_eq_some_iff.mp ht
    exact ⟨_, List.getElem?_eq_getElem (hsame ▸ hi'), hentries i hi' (hsame ▸ hi')⟩
  exact ⟨t', hrenumbered, hparams distinct i t' ht' hi⟩

end Symbolic

open Sandbox

namespace Execution

variable {α : Type} {x : Exchange}

theorem Ends.of_run {act : Execution α} {P : α → Exchange → Prop} {E : AnalysisError → Prop} (h : Ends act x P E)
    {a : α} {x' : Exchange} (hrun : act.run x = (.ok a, x')) : P a x' := by
  obtain ⟨b, y, hb, hp⟩ | ⟨e, y, he, -⟩ := h
  · rw [hrun] at hb
    cases hb
    exact hp
  · rw [hrun] at he
    cases he

end Execution

namespace Case

variable {ctx : CaseContext} {c : Case} {x : Exchange} {r : CaseResult}

theorem finds_of_execute {returns : Ty} {params : List Ty} (ran : ((c.execute ctx).run x).1 = .ok r)
    (found : r.outcome = some (.success returns params)) : c.Finds ctx x returns params := by
  unfold execute at ran
  split at ran
  · cases ran
    cases found
  · have hallows : c.Allows ctx x fun _ => True := by constructor <;> intros <;> trivial
    exact ((ends_runUnskipped hallows).of_run (Prod.ext ran rfl)).1.finds found

end Case

def CaseContext.parameters (ctx : CaseContext) : List String := ctx.function.definition.params.names

namespace Signature

def typesAt (found : List (Ty × List Ty)) (i : Nat) : List Ty := found.filterMap fun s => s.2[i]?

theorem param_of_merge? {f : AnnotatedFunction} {found : List (Ty × List Ty)} {s : Signature}
    (h : merge? f found = some s) {i : Nat} {n : String} (hn : f.definition.params.names[i]? = some n) :
    ∃ t, Ty.merge? f.isPure (typesAt found i) = some t ∧ s.params[i]? = some (n, t) := by
  rw [merge?_eq] at h
  obtain ⟨params, hparams, h⟩ := Option.bind_eq_some_iff.mp h
  obtain ⟨result, -, rfl⟩ := Option.map_eq_some_iff.mp h
  have hentry := congrArg (·[i]?) (mapM_eq_some_iff.mp hparams)
  simp only [List.getElem?_map, List.getElem?_zipIdx, hn, Option.map_some, Nat.zero_add] at hentry
  obtain ⟨p, hp, he⟩ := Option.map_eq_some_iff.mp hentry.symm
  obtain ⟨t, ht, rfl⟩ := Option.map_eq_some_iff.mp he.symm
  exact ⟨t, ht, hp⟩

theorem param_untyped {f : AnnotatedFunction} {found : List (Ty × List Ty)} {s : Signature}
    (h : merge? f found = some s) {i : Nat} {n : String} (hn : f.definition.params.names[i]? = some n)
    (hnone : typesAt found i = []) : s.params[i]? = some (n, .never) := by
  have hnever : Ty.merge? f.isPure [] = some .never := by
    cases f.isPure <;> rfl
  obtain ⟨t, ht, hparam⟩ := param_of_merge? h hn
  rw [hnone, hnever] at ht
  cases ht
  exact hparam

end Signature

namespace Case

inductive Misaligned (ctx : CaseContext) (c : Case) (x : Exchange) : Prop
  | raised {exception message : String} (concrete : c.isSymbolic = false)
      (answer : x.answers.head? = some (.raised exception message))
      (length : c.arguments.length ≠ ctx.parameters.length)
  | redefined {f : FunctionDef Stmt} (symbolic : c.isSymbolic = true)
      (last : ctx.module.functions.get? ctx.function.name = some f)
      (length : f.params.names.length ≠ ctx.parameters.length)

inductive InOrder (c : Case) (x : Exchange) (params : List Ty) : Prop
  | interpreted (symbolic : c.isSymbolic = true)
      (types : ∀ (i : Nat) (v : CaseValue), c.arguments[i]? = some v → i < params.length →
        ∃ t, v.type.Renumbered Number.mark t ∧ params[i]? = some (Value.type t).asType)
  | returned {returns : Datum} {types : List Datum} (concrete : c.isSymbolic = false)
      (answer : x.answers.head? = some (.returned returns types)) (decoded : types.mapM Ty.decode = .ok params)
  | raised {exception message : String} (concrete : c.isSymbolic = false)
      (answer : x.answers.head? = some (.raised exception message)) (types : params = c.arguments.map CaseValue.type)

section

variable {ctx : CaseContext} {c : Case} {x : Exchange}

theorem types_of_concrete (h : c.isSymbolic = false) :
    (c.arguments.filterMap CaseValue.datum?).map Ty.ofDatum = c.arguments.map CaseValue.type := by
  unfold isSymbolic at h
  generalize c.arguments = vs at h
  induction vs with
  | nil => rfl
  | cons v vs ih =>
    rw [List.any_cons, Bool.or_eq_false_iff] at h
    cases v with
    | concrete d => exact congrArg (Ty.ofDatum d :: ·) (ih h.2)
    | symbolic t => cases h.1

theorem aligned_interpreted (symbolic : c.isSymbolic = true) {report : Symbolic.Report}
    (run : (Symbolic.run (c.setting ctx) ctx.function.name (c.arguments.map CaseValue.type)).1 = .ok report)
    (distinct : ∀ f, ctx.module.functions.get? ctx.function.name = some f → f.params.declared.Nodup) :
    (report.params.length = ctx.parameters.length ↔ ¬ c.Misaligned ctx x) ∧ c.InOrder x report.params := by
  obtain ⟨f, hf, hlength, hparams⟩ := Symbolic.params_of_run run
  refine ⟨?_, .interpreted symbolic fun i v hv hi => ?_⟩
  · rw [hlength]
    constructor
    · intro hsame hm
      cases hm with
      | raised concrete => exact absurd concrete (by simp [symbolic])
      | redefined _ last length =>
        rw [show ctx.module.functions.get? ctx.function.name = some f from hf] at last
        exact length (Option.some.inj last ▸ hsame)
    · intro hm
      by_contra hne
      exact hm (.redefined symbolic hf hne)
  · exact hparams (distinct f hf) i v.type (by rw [List.getElem?_map, hv, Option.map_some]) (hlength ▸ hi)

theorem aligned_of_finds {returns : Ty} {params : List Ty} (found : c.Finds ctx x returns params)
    (reply : ∀ returns types, x.answers.head? = some (.returned returns types) → types.length = ctx.parameters.length)
    (distinct : ∀ f, ctx.module.functions.get? ctx.function.name = some f → f.params.declared.Nodup) :
    (params.length = ctx.parameters.length ↔ ¬ c.Misaligned ctx x) ∧ c.InOrder x params := by
  cases found with
  | interpreted symbolic run _ => exact aligned_interpreted symbolic run distinct
  | interpretedRaise symbolic run _ _ => exact aligned_interpreted symbolic run distinct
  | returned concrete answer _ decodedParams =>
    refine ⟨iff_of_true ?_ ?_, .returned concrete answer decodedParams⟩
    · exact (mapM_eq_ok.mp decodedParams).length_eq.symm.trans (reply _ _ answer)
    · intro hm
      cases hm with
      | raised _ raised _ => exact absurd (answer.symm.trans raised) (by simp)
      | redefined symbolic _ _ => exact absurd symbolic (by simp [concrete])
  | raised concrete answer _ =>
    rw [types_of_concrete concrete, List.length_map]
    refine ⟨⟨fun hsame hm => ?_, fun hm => ?_⟩, .raised concrete answer rfl⟩
    · cases hm with
      | raised _ _ length => exact length hsame
      | redefined symbolic _ _ => exact absurd symbolic (by simp [concrete])
    · by_contra hne
      exact hm (.raised concrete answer hne)

end

/-- A successful case has one type for each parameter, in order, unless it ends in an exception from the sandbox with
more or fewer arguments than parameters, or its name belongs to a function with another number of them. Then the
signature may lack a type. -/
theorem success_types_every_parameter_iff (ctx : CaseContext) (c : Case) (x : Exchange) (r : CaseResult) (returns : Ty)
    (params : List Ty) (ran : ((c.execute ctx).run x).1 = .ok r)
    (success : r.outcome = some (.success returns params))
    (reply : ∀ returns types, x.answers.head? = some (.returned returns types) → types.length = ctx.parameters.length)
    (distinct : ∀ f, ctx.module.functions.get? ctx.function.name = some f → f.params.declared.Nodup) :
    (params.length = ctx.parameters.length ↔ ¬ c.Misaligned ctx x) ∧ c.InOrder x params ∧
    (¬ c.Misaligned ctx x → ∀ found, (returns, params) ∈ found → ∀ i < ctx.parameters.length,
      Signature.typesAt found i ≠ []) ∧
    ∀ s, Signature.merge? ctx.function [(returns, params)] = some s → ∀ (i : Nat) (n : String), params.length ≤ i →
      ctx.parameters[i]? = some n → s.params[i]? = some (n, .never) := by
  obtain ⟨hlength, horder⟩ := aligned_of_finds (finds_of_execute ran success) reply distinct
  refine ⟨hlength, horder, fun hm found hmem i hi hnone => ?_, fun s hs i n hi hn => ?_⟩
  · have hi' : i < params.length := hlength.mpr hm ▸ hi
    have htype : params[i] ∈ Signature.typesAt found i :=
      List.mem_filterMap.mpr ⟨_, hmem, List.getElem?_eq_getElem hi'⟩
    rw [hnone] at htype
    cases htype
  · refine Signature.param_untyped hs hn ?_
    simp [Signature.typesAt, List.getElem?_eq_none hi]

def failingContext : CaseContext where
  module := { file := "failing", functions := [("failing", failing)] }
  source := ""
  function := ⟨failing, .point "failing" 1 1, []⟩
  mocks := .empty
  config := {}
where
  failing : FunctionDef Stmt :=
    ⟨default, "failing", { ordinary := ["a", "b"], defaults := [.constant default (.scalar (.int 2))] },
      [.raising default (some (.name default "ValueError")) none], [], []⟩

def failingCase : Case where
  label := "case 1"
  directive := ⟨.point "failing" 1 1, .oneCase none []⟩
  arguments := [.concrete (.scalar (.boolean true))]
  expected := some (.concrete (.text "throws"))

theorem failingCase_leaves_parameter_untyped :
    failingContext.parameters = ["a", "b"] ∧
    ∃ r s, ((failingCase.execute failingContext).run ⟨[.raised "ValueError" ""], []⟩).1 = .ok r ∧
      r.outcome = some (.success (.throws (some "ValueError")) [.bool true]) ∧
      failingCase.Misaligned failingContext ⟨[.raised "ValueError" ""], []⟩ ∧
      Signature.merge? failingContext.function [(.throws (some "ValueError"), [.bool true])] = some s ∧
      s.params[1]? = some ("b", .never) := by
  obtain ⟨r, hran, hsuccess⟩ :
      ∃ r, ((failingCase.execute failingContext).run ⟨[.raised "ValueError" ""], []⟩).1 = .ok r ∧
        r.outcome = some (.success (.throws (some "ValueError")) [.bool true]) := ⟨_, rfl, rfl⟩
  obtain ⟨s, hs⟩ : ∃ s, Signature.merge? failingContext.function
      [(.throws (some "ValueError"), [.bool true])] = some s := ⟨_, rfl⟩
  have distinct (f : FunctionDef Stmt)
      (hf : failingContext.module.functions.get? failingContext.function.name = some f) : f.params.declared.Nodup := by
    cases hf
    decide
  obtain ⟨hlength, -, -, huntyped⟩ :=
    success_types_every_parameter_iff failingContext failingCase _ r _ _ hran hsuccess (by simp) distinct
  refine ⟨rfl, r, s, hran, hsuccess, ?_, hs, huntyped s hs 1 "b" (by decide) rfl⟩
  by_contra hm
  exact absurd (hlength.mpr hm) (by decide)

end Case

end Casewise
