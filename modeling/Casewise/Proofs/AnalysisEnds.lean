import Casewise.Analysis
import Casewise.Proofs.CaseStates
import Casewise.Proofs.Planning

namespace Casewise

open Sandbox

namespace MockRegistry

def Written (r : MockRegistry) : Prop := ∀ s ∈ r.scopes, ∀ b ∈ s.entries, b.2.text?.isSome = true

variable {r : MockRegistry}

theorem written_empty : empty.Written := by simp [Written, empty]

theorem Written.register (h : r.Written) (scope : Nat) {m : Mock} (hm : m.substitute.text?.isSome = true) :
    (r.register scope m).Written := by
  intro s hs
  obtain ⟨i, hi, rfl⟩ := List.getElem_of_mem hs
  simp only [MockRegistry.register, List.length_modify] at hi
  have hold := h _ (List.getElem_mem hi)
  simp only [MockRegistry.register, List.getElem_modify]
  split
  · exact Bindings.forall_mem_set (p := fun v : CaseValue => v.text?.isSome = true) m.symbol hold hm
  · exact hold

theorem Written.registerAll (h : r.Written) (scope : Nat) {ms : List Mock}
    (hm : ∀ m ∈ ms, m.substitute.text?.isSome = true) : (r.registerAll scope ms).Written := by
  induction ms generalizing r with
  | nil => exact h
  | cons m ms ih =>
    obtain ⟨hm, hms⟩ := List.forall_mem_cons.mp hm
    exact ih (h.register scope hm) hms

theorem Written.child (h : r.Written) (parent : Nat) : (r.child parent).1.Written :=
  List.forall_mem_append.mpr ⟨h, by simp⟩

theorem Written.chainFrom (h : r.Written) (n scope : Nat) :
    ∀ table ∈ r.chainFrom n scope, ∀ b ∈ table, b.2.text?.isSome = true := by
  induction n generalizing scope with
  | zero => simp [MockRegistry.chainFrom]
  | succ n ih =>
    unfold MockRegistry.chainFrom
    split
    · simp
    · next s hs =>
      refine List.forall_mem_cons.mpr ⟨h s (List.mem_of_getElem? hs), ?_⟩
      split
      · simp
      · exact ih _

end MockRegistry

theorem MockChain.text?_mocks {chain : MockChain} (h : ∀ table ∈ chain, ∀ b ∈ table, b.2.text?.isSome = true) :
    ∀ m ∈ chain.mocks, m.substitute.text?.isSome = true := by
  have hentries : ∀ b ∈ chain.entries, b.2.text?.isSome = true := by
    induction chain with
    | nil => simp [entries]
    | cons table outer ih =>
      obtain ⟨ht, hrest⟩ := List.forall_mem_cons.mp h
      exact Bindings.forall_mem_update (p := fun v : CaseValue => v.text?.isSome = true) table (ih hrest) ht
  exact List.forall_mem_map.mpr hentries

theorem Case.Written.writable {c : Case} (h : c.Written) {ctx : CaseContext} (hm : ctx.mocks.Written) :
    c.Writable ctx where
  arguments := h.arguments
  mocks := MockChain.text?_mocks (((hm.child MockRegistry.file).registerAll _ h.mocks).chainFrom _ _)
  expected := h.expected

theorem Analysis.written_fileMocks (directives : List Directive) : (fileMocks directives).1.Written := by
  refine List.foldlRecOn (motive := fun found : MockRegistry × List Diagnostic => found.1.Written) directives _ MockRegistry.written_empty ?_
  intro found hs d _
  dsimp only
  split
  · next symbol substitute _ => exact hs.register _ substitute.text?_evaluate
  · exact hs

namespace Ty

theorem printable_mergedTo {n : Nat} {ts : List Ty} (h : ∀ t ∈ ts, t.Printable) : (mergedTo n ts).Printable := by
  induction n generalizing ts with
  | zero => exact printable_union (every_flat h)
  | succ n ih =>
    refine printable_union (List.forall_mem_append.mpr ⟨fun t ht => ?_, fun c hc => ?_⟩)
    · exact every_flat h t (List.mem_filter.mp ht).1
    · have hcc := isContainer_mergedContainers hc
      refine every_iff.mpr ⟨(onLeaves_hasText c).resolve_right ?_, fun t ht => ?_⟩
      · rintro (⟨s, rfl⟩ | rfl) <;> simp [isContainer] at hcc
      · rw [within_eq (isFunction_container hcc)] at ht
        obtain ⟨L, hL, rfl | rfl⟩ := child_mergedContainers hc ht
        · exact ih (every_nested (every_flat h) hL)
        · exact printable_union (by simpa [undefined] using ⟨ih (every_nested (every_flat h) hL), rfl⟩)

theorem alternatives?_of_printable {ts : List Ty} (h : ∀ t ∈ ts, t.Printable) :
    alternatives? ts = some (ts.flatMap byName) := by
  have hsorted : ∀ t ∈ ts, (sortedMembers? t).isSome = true := by
    intro t ht
    cases t with
    | oneOf ms =>
      have hnames : (names? ms).isSome = true :=
        names?_isSome.mpr fun m hm => name?_isSome (every_child (h _ ht) hm)
      obtain ⟨ns, hns⟩ := Option.isSome_iff_exists.mp hnames
      simp [sortedMembers?, hns]
    | _ => rfl
  obtain ⟨flat, hflat⟩ := Option.isSome_iff_exists.mp (alternatives?_isSome.mpr hsorted)
  rw [hflat, alternatives?_eq_some hflat]

theorem mergeTo_of_printable {n : Nat} {ts : List Ty} (h : ∀ t ∈ ts, t.Printable) :
    (mergeTo n ts).isSome = true := by
  induction n generalizing ts with
  | zero => simp [mergeTo, alternatives?_of_printable h]
  | succ n ih =>
    have hcontainers : (mergeContainers (mergeTo n) (ts.flatMap byName)).isSome = true :=
      mergeContainers_isSome.mpr fun L hL => ih (every_nested (every_flat h) hL)
    obtain ⟨cs, hcs⟩ := Option.isSome_iff_exists.mp hcontainers
    simp [mergeTo, alternatives?_of_printable h, hcs]

theorem merge?_of_printable (exact : Bool) {ts : List Ty} (h : ∀ t ∈ ts, t.Printable) :
    ∃ t, merge? exact ts = some t ∧ t.Printable := by
  have hprepared : ∀ t ∈ ts.map (prepared exact), t.Printable := by
    refine List.forall_mem_map.mpr fun t ht => ?_
    cases exact with
    | false => exact printable_widen (h t ht)
    | true => exact h t ht
  rw [merge?_eq]
  obtain ⟨t, ht⟩ := Option.isSome_iff_exists.mp (mergeTo_of_printable hprepared)
  exact ⟨t, ht, mergeTo_eq_some ht ▸ printable_mergedTo hprepared⟩

end Ty

theorem exists_mapM_option {α β : Type} {f : α → Option β} {P : β → Prop} {as : List α}
    (h : ∀ a ∈ as, ∃ b, f a = some b ∧ P b) : ∃ bs, as.mapM f = some bs ∧ ∀ b ∈ bs, P b := by
  induction as with
  | nil => exact ⟨[], rfl, by simp⟩
  | cons a as ih =>
    obtain ⟨ha, hrest⟩ := List.forall_mem_cons.mp h
    obtain ⟨b, hb, hpb⟩ := ha
    obtain ⟨bs, hbs, hpbs⟩ := ih hrest
    refine ⟨b :: bs, ?_, List.forall_mem_cons.mpr ⟨hpb, hpbs⟩⟩
    rw [List.mapM_cons, hb, hbs]
    rfl

theorem exists_mapM_bind {α β γ : Type} {f : α → Option β} {k : List β → Option γ} {P : β → Prop} {Q : γ → Prop}
    {as : List α} (h : ∀ a ∈ as, ∃ b, f a = some b ∧ P b)
    (hk : ∀ bs, (∀ b ∈ bs, P b) → ∃ c, k bs = some c ∧ Q c) : ∃ c, (as.mapM f >>= k) = some c ∧ Q c := by
  obtain ⟨bs, hbs, hp⟩ := exists_mapM_option h
  rw [hbs]
  exact hk bs hp

namespace Signature

variable {f : AnnotatedFunction}

theorem text?_isSome {s : Signature} (hp : ∀ p ∈ s.params, p.2.Printable) (hr : s.returns.Printable) :
    s.text?.isSome = true := by
  have hparams : (s.params.mapM fun p : String × Ty => p.2.name?.map (p.1 ++ ": " ++ ·)).isSome = true := by
    refine mapM_isSome.mpr fun p hmem => ?_
    rw [Option.isSome_map]
    exact Ty.name?_isSome (hp p hmem)
  obtain ⟨params, hparams⟩ := Option.isSome_iff_exists.mp hparams
  obtain ⟨returns, hreturns⟩ := Option.isSome_iff_exists.mp (Ty.name?_isSome hr)
  simp only [text?, hparams, hreturns]
  rfl

theorem merge?_of_printable {found : List (Ty × List Ty)}
    (h : ∀ s ∈ found, s.1.Printable ∧ ∀ t ∈ s.2, t.Printable) :
    ∃ s, merge? f found = some s ∧ s.text?.isSome = true := by
  have hcolumn (i : Nat) : ∀ t ∈ found.filterMap fun s => s.2[i]?, t.Printable := by
    intro t ht
    obtain ⟨s, hs, hi⟩ := List.mem_filterMap.mp ht
    exact (h s hs).2 t (List.mem_of_getElem? hi)
  have hreturns : ∀ t ∈ (found.map (·.1)).filter (!isThrows ·), t.Printable := by
    intro t ht
    obtain ⟨s, hs, rfl⟩ := List.mem_map.mp (List.mem_filter.mp ht).1
    exact (h s hs).1
  refine exists_mapM_bind (P := fun p => p.2.Printable) (fun p _ => ?_) fun params hp => ?_
  · obtain ⟨t, ht, hprintable⟩ := Ty.merge?_of_printable f.isPure (hcolumn p.2)
    exact ⟨(p.1, t), by simp [ht], hprintable⟩
  by_cases hempty : ((found.map (·.1)).filter (!isThrows ·)).isEmpty = true
  · exact ⟨⟨f.name, params, .never, found.length⟩, if_pos hempty, text?_isSome hp rfl⟩
  · obtain ⟨result, hresult, hr⟩ := Ty.merge?_of_printable f.isPure hreturns
    refine ⟨⟨f.name, params, result, found.length⟩, (if_neg hempty).trans ?_, text?_isSome hp hr⟩
    rw [hresult]
    rfl

theorem ofResults?_of_printable {results : List CaseResult}
    (h : ∀ s ∈ successes results, s.1.Printable ∧ ∀ t ∈ s.2, t.Printable) :
    ∃ s ws, ofResults? f results = some (s, ws) ∧ s.text?.isSome = true := by
  unfold ofResults?
  split
  · refine ⟨_, _, rfl, text?_isSome (List.forall_mem_map.mpr fun _ _ => rfl) rfl⟩
  · obtain ⟨s, hs, ht⟩ := merge?_of_printable (f := f) h
    exact ⟨s, [], by rw [hs]; rfl, ht⟩

end Signature

namespace Analysis

def FindsLong (ctx : CaseContext) (x : Exchange) : Prop :=
  skipOf? ctx.function = none ∧ ∃ plan, Plan.ofDirectives ctx.function.directives ctx.config.samples = .ok plan ∧
    ∃ c ∈ plan.cases, c.skipped = false ∧ ∃ y : Exchange, y.answers <:+ x.answers ∧
      ∃ returns params, c.Finds ctx y returns params ∧ ∃ t ∈ returns :: params, ¬ t.Printable

variable {ctx : CaseContext} {x y : Exchange} {E : AnalysisError → Prop}

theorem ends_execute {c : Case} (hw : c.Writable ctx) (ht : ctx.config.timeout.brief = none → E .badTimeout)
    (hl : c.skipped = false → ∀ returns params, c.Finds ctx y returns params → ¬ returns.Printable → E .tooLong)
    (ha : ∀ a ∈ x.answers, a.WellFormed) (hy : y.answers <:+ x.answers) :
    Execution.Ends (c.execute ctx) y (fun r z => (∀ returns params, r.outcome = some (.success returns params) →
      c.skipped = false ∧ c.Finds ctx y returns params) ∧ z.answers <:+ x.answers) E := by
  unfold Case.execute
  cases hs : c.skipped with
  | true =>
    refine .inl ⟨{ CaseResult.start c with status := .skipped, outcome := some .skipped }, y, rfl, ?_, hy⟩
    simp
  | false =>
    have hhead (a : Answer) (h : y.answers.head? = some a) : a.WellFormed :=
      ha a (hy.subset (List.mem_of_mem_head? h))
    refine (Case.ends_runUnskipped (hw.allows ht (hl hs) hhead)).mono ?_
    rintro r z ⟨hr, hz⟩
    refine ⟨fun returns params ho => ⟨rfl, hr.finds ho⟩, ?_⟩
    rcases hz with rfl | hz
    · exact hy
    · exact hz ▸ (List.tail_suffix _).trans hy

def Reported (ctx : CaseContext) (plan : Plan) (x : Exchange) (r : CaseResult) : Prop :=
  ∀ returns params, r.outcome = some (.success returns params) → ∃ c ∈ plan.cases, c.skipped = false ∧
    ∃ y : Exchange, y.answers <:+ x.answers ∧ c.Finds ctx y returns params

section

variable {plan : Plan} (hs : skipOf? ctx.function = none)
  (hplan : Plan.ofDirectives ctx.function.directives ctx.config.samples = .ok plan) (hl : FindsLong ctx x → E .tooLong)

include hs hplan hl

theorem printable_or_long {results : List CaseResult} (hr : ∀ r ∈ results, Reported ctx plan x r) :
    (∀ s ∈ Signature.successes results, s.1.Printable ∧ ∀ t ∈ s.2, t.Printable) ∨ E .tooLong := by
  by_contra hnone
  obtain ⟨hsome, hlong⟩ := not_or.mp hnone
  refine hsome fun s hmem => ?_
  obtain ⟨r, hrm, hsuccess⟩ := List.mem_filterMap.mp hmem
  have houtcome : r.outcome = some (.success s.1 s.2) := by
    split at hsuccess
    · next ho =>
      obtain rfl := Option.some.inj hsuccess
      exact ho
    · cases hsuccess
  obtain ⟨c, hc, hskip, y, hy, hf⟩ := hr r hrm s.1 s.2 houtcome
  have hprintable (t : Ty) (ht : t ∈ s.1 :: s.2) : t.Printable := by
    by_contra hp
    exact hlong (hl ⟨hs, plan, hplan, c, hc, hskip, y, hy, s.1, s.2, hf, t, ht, hp⟩)
  exact List.forall_mem_cons.mp hprintable

theorem ends_runFunction (hw : ∀ c ∈ plan.cases, c.Writable ctx)
    (ht : ctx.config.timeout.brief = none → E .badTimeout) (ha : ∀ a ∈ x.answers, a.WellFormed)
    (hy : y.answers <:+ x.answers) :
    Execution.Ends (runFunction ctx plan) y (fun _ z => z.answers <:+ x.answers) E := by
  have hresults : Execution.Ends (plan.cases.mapM fun c => c.execute ctx) y
      (fun rs z => (∀ r ∈ rs, Reported ctx plan x r) ∧ z.answers <:+ x.answers) E := by
    refine Execution.ends_mapM_all (I := fun z => z.answers <:+ x.answers) (fun c hc z hz => ?_) hy
    have hlong (hskip : c.skipped = false) (returns : Ty) (params : List Ty) (hf : c.Finds ctx z returns params)
        (hp : ¬ returns.Printable) : E .tooLong :=
      hl ⟨hs, plan, hplan, c, hc, hskip, z, hz, returns, params, hf, returns, by simp, hp⟩
    refine (ends_execute (hw c hc) ht hlong ha hz).mono ?_
    rintro r w ⟨hr, hw⟩
    refine ⟨fun returns params ho => ?_, hw⟩
    obtain ⟨hskip, hf⟩ := hr returns params ho
    exact ⟨c, hc, hskip, z, hz, hf⟩
  unfold runFunction
  refine hresults.bind ?_
  rintro rs z ⟨hrs, hz⟩
  have hsignature :
      (∃ s ws, Signature.ofResults? ctx.function rs = some (s, ws) ∧ s.text?.isSome = true) ∨ E .tooLong :=
    (printable_or_long hs hplan hl hrs).imp_left Signature.ofResults?_of_printable
  refine (Execution.ends_orTooLong_of fun hnone => ?_).bind ?_
  · refine hsignature.resolve_left ?_
    rintro ⟨s, ws, hsome, _⟩
    simp [hnone] at hsome
  · rintro ⟨s, ws⟩ w ⟨hsome, hw⟩
    refine (Execution.ends_orTooLong_of fun hnone => ?_).bind fun _ v hv => Execution.ends_pure (hv.2 ▸ hw ▸ hz)
    refine hsignature.resolve_left ?_
    rintro ⟨s', ws', hsome', htext⟩
    obtain ⟨rfl, rfl⟩ := Prod.mk.inj (Option.some.inj (hsome.symm.trans hsome'))
    simp [hnone] at htext

end

theorem ends_skipFunction {plan : Plan} (declared : Option ArgumentText) (hy : y.answers <:+ x.answers) :
    Execution.Ends (skipFunction ctx.function plan declared) y (fun _ z => z.answers <:+ x.answers) E := by
  refine (Execution.ends_mapM_all (I := fun z => z.answers <:+ x.answers) (R := fun _ => True)
    (fun c _ z hz => ?_) hy).bind fun _ z hz => Execution.ends_pure hz.2
  exact .inl ⟨{ CaseResult.start c with status := .skipped, outcome := some .skipped }, z, rfl, trivial, hz⟩

theorem ends_function (hm : ctx.mocks.Written) (hrows : 0 ≤ ctx.config.maxSamples)
    (hb : Sampling.rowLimit < ctx.config.maxSamples → E .badLimit)
    (ht : ctx.config.timeout.brief = none → E .badTimeout) (hl : FindsLong ctx x → E .tooLong)
    (ha : ∀ a ∈ x.answers, a.WellFormed) (hy : y.answers <:+ x.answers) :
    Execution.Ends (function ctx) y (fun _ z => z.answers <:+ x.answers) E := by
  unfold function
  obtain ⟨plan, hplan, hw⟩ | ⟨hbad, hlimit⟩ := Plan.makes_ofDirectives ctx.function.directives ctx.config.samples
  · rw [hplan]
    refine (Execution.ends_pure (P := fun p z => p = plan ∧ z = y) ⟨rfl, rfl⟩).bind ?_
    rintro p z ⟨rfl, rfl⟩
    split
    · exact ends_skipFunction _ hy
    · next hskip => exact ends_runFunction hskip hplan hl (fun c hc => (hw c hc).writable hm) ht ha hy
  · rw [hbad]
    have hlimit : ctx.config.maxSamples < 0 ∨ Sampling.rowLimit < ctx.config.maxSamples := hlimit
    exact .inr ⟨.badLimit, y, rfl, hb (hlimit.resolve_left (Int.not_lt.mpr hrows))⟩

def context (p : Program) (file : SourceFile) (config : AnalysisConfig) (f : AnnotatedFunction) : CaseContext :=
  ⟨.ofProgram p file.name file.text, file.text, f,
    (fileMocks (Annotations.ofProgram p file.text file.name).fileMocks).1, config, file.directory⟩

section

variable {f : SourceFile} {config : AnalysisConfig} (hrows : 0 ≤ config.maxSamples)
  (hb : Sampling.rowLimit < config.maxSamples → E .badLimit) (ht : config.timeout.brief = none → E .badTimeout)
  (ha : ∀ a ∈ x.answers, a.WellFormed)

include hrows hb ht ha

theorem ends_program {p : Program}
    (hl : ∀ g ∈ (Annotations.ofProgram p f.text f.name).functions, FindsLong (context p f config g) x → E .tooLong) :
    Execution.Ends (program p f config) x (fun _ _ => True) E := by
  have hone (g : AnnotatedFunction) (hg : g ∈ (Annotations.ofProgram p f.text f.name).functions) (y : Exchange)
      (hy : y.answers <:+ x.answers) :
      Execution.Ends (function (context p f config g)) y (fun _ z => z.answers <:+ x.answers) E :=
    ends_function (written_fileMocks _) hrows hb ht (hl g hg) ha hy
  unfold program
  refine (Execution.ends_foldlM (I := fun y => y.answers <:+ x.answers) (fun g hg _ y hy => ?_) _
    (List.suffix_refl _)).mono fun _ _ _ => trivial
  exact (hone g hg y hy).bind fun _ z hz => Execution.ends_pure hz

end

/-- Whatever a file holds, its analysis gives a result, unless a case finds a type with an integer too long to be
written, more rows of samples are asked for than can be counted, or the timeout is too large to be shown. -/
theorem file_ends_unless_too_long (f : SourceFile) (config : AnalysisConfig) (x : Exchange)
    (hparsed : f.parsed.isSome = true) (hrows : 0 ≤ config.maxSamples) (ha : ∀ a ∈ x.answers, a.WellFormed) :
    (∃ r, ((file f config).run x).1 = .ok r) ∨
      (((file f config).run x).1 = .error .tooLong ∧ ∃ p, f.parsed = some (.ok p) ∧
        ∃ g ∈ (Annotations.ofProgram p f.text f.name).functions, FindsLong (context p f config g) x) ∨
      (((file f config).run x).1 = .error .badLimit ∧ Sampling.rowLimit < config.maxSamples) ∨
      (((file f config).run x).1 = .error .badTimeout ∧ config.timeout.brief = none) := by
  let E (e : AnalysisError) : Prop :=
    (e = .tooLong ∧ ∃ p, f.parsed = some (.ok p) ∧
      ∃ g ∈ (Annotations.ofProgram p f.text f.name).functions, FindsLong (context p f config g) x) ∨
    (e = .badLimit ∧ Sampling.rowLimit < config.maxSamples) ∨ (e = .badTimeout ∧ config.timeout.brief = none)
  have hends : Execution.Ends (file f config) x (fun _ _ => True) E := by
    unfold file
    dsimp only
    split
    · next hnone => simp [hnone] at hparsed
    · exact .inl ⟨_, x, rfl, trivial⟩
    · next p hp =>
      have hprogram := ends_program (E := E) hrows (fun h => .inr (.inl ⟨rfl, h⟩)) (fun h => .inr (.inr ⟨rfl, h⟩)) ha
        fun g hg hlong => .inl ⟨rfl, p, hp, g, hg, hlong⟩
      exact hprogram.bind fun r y _ => .inl ⟨_, y, rfl, trivial⟩
  obtain ⟨r, y, hrun, _⟩ | ⟨e, y, hrun, he⟩ := hends
  · exact .inl ⟨r, congrArg Prod.fst hrun⟩
  · have herror := congrArg Prod.fst hrun
    refine .inr (he.imp ?_ (Or.imp ?_ ?_))
    · rintro ⟨rfl, hlong⟩
      exact ⟨herror, hlong⟩
    · rintro ⟨rfl, hlimit⟩
      exact ⟨herror, hlimit⟩
    · rintro ⟨rfl, htimeout⟩
      exact ⟨herror, htimeout⟩

def powerFile : SourceFile where
  name := "power"
  text := "# @nudo:pure\n# @nudo:case (T.boolean)\n" ++
    "def power(flag):\n    a = 10 ** 64\n    b = a ** 64\n    return b * b\n"
  parsed := some (.ok
    { body := [.function ⟨⟨3, 0, 6, 16⟩, "power", { ordinary := ["flag"] }, body, [], []⟩], comments })
where
  comments : List Comment := [⟨1, ""⟩, ⟨2, ""⟩]
  literal (n : Int) : Expr := .constant default (.scalar (.int n))
  named (id : String) : Expr := .name default id
  body : List Stmt :=
    [.assign default [named "a"] (.binary default .pow (literal 10) (literal 64)),
      .assign default [named "b"] (.binary default .pow (named "a") (literal 64)),
      .returns default (some (.binary default .mul (named "b") (named "b")))]

theorem powerFile_is_too_long :
    ((file powerFile {}).run ⟨[], []⟩).1 = .error .tooLong ∧ ∃ p, powerFile.parsed = some (.ok p) ∧
      ∃ g ∈ (Annotations.ofProgram p powerFile.text powerFile.name).functions,
        FindsLong (context p powerFile {} g) ⟨[], []⟩ := by
  have hfails : ((file powerFile {}).run ⟨[], []⟩).1.toOption.isNone = true := by decide +kernel
  obtain ⟨r, hr⟩ | hlong | ⟨_, hrows⟩ | ⟨_, htimeout⟩ :=
    file_ends_unless_too_long powerFile {} ⟨[], []⟩ rfl (by decide) (by simp)
  · rw [hr] at hfails
    cases hfails
  · exact hlong
  · exact absurd hrows (by decide)
  · cases htimeout

end Analysis

end Casewise
