import Casewise.Proofs.Planning
import Casewise.Proofs.Producers

/-!
The cases of a plan, told by the places of the directives. Each directive that describes cases stands at a site: after
some directives, whose mocks hold for its cases, and before others up to the next such directive, whose last expectation
is theirs. A plan is read from the sites in order. Only a sampled directive can give any number of cases, and none if no
rows are asked for; an expectation that follows it is then taken for one that all cases share.
-/

namespace Casewise

namespace Ty

variable {t : Ty} {ms : List Ty} {count : Int}

theorem length_inNameOrder {α : Type} {results : List (Except SampleError α)} {as : List α}
    (hr : results.length = ms.length) (h : inNameOrder ms results = .ok as) : as.length = ms.length := by
  unfold inNameOrder at h
  split at h
  · cases h
  · next ns hns =>
    have hlength := (mapM_eq_ok.mp h).length_eq
    rw [List.length_map, (sortBy_perm _ _).length_eq, List.length_zip, names?_length hns, hr, Nat.min_self] at hlength
    exact hlength.symm

theorem samples_ne_nil {ds : List Datum} (h : t.WellFormed) (hs : t.samples count = .ok ds) : ds ≠ [] := by
  have hdrawn {d : Datum} {others : List Datum} : (d :: others).take (drawn count) ≠ [] := by
    have hpos : drawn count ≠ 0 := by
      unfold drawn
      omega
    simp [hpos]
  have hone (hs : (do return [← representative t]) = .ok ds) : ds ≠ [] := by
    obtain ⟨d, _, hd⟩ := bind_eq_ok.mp hs
    rw [← pure_eq_ok.mp hd]
    simp
  cases t with
  | primitive p =>
    cases p with
    | number => exact Except.ok.inj hs ▸ hdrawn
    | string => exact Except.ok.inj hs ▸ List.append_ne_nil_of_left_ne_nil hdrawn _
    | boolean => exact Except.ok.inj hs ▸ hdrawn
    | _ => exact hone hs
  | oneOf ms =>
    have hlength := length_inNameOrder (by rw [representatives_eq_map, List.length_map]) hs
    have htwo := (wellFormed_oneOf.mp h).1.1
    rintro rfl
    rw [← hlength] at htwo
    simp at htwo
  | _ => exact hone hs

end Ty

namespace Sampling

theorem rows_ne_nil {α : Type} {limit : Nat} {pools : List (List α)} (hlimit : limit ≠ 0)
    (h : ∀ pool ∈ pools, pool ≠ []) : rows limit pools ≠ [] := by
  induction pools with
  | nil => simp [rows, hlimit]
  | cons pool pools ih =>
    obtain ⟨hpool, hrest⟩ := List.forall_mem_cons.mp h
    obtain ⟨a, as, rfl⟩ := List.exists_cons_of_ne_nil hpool
    simp [rows, hlimit, ih hrest]

theorem rows_zero {α : Type} (pools : List (List α)) : rows 0 pools = [] := by
  cases pools <;> simp [rows]

theorem sampled_pool (arg : ArgumentText) (count : Int) : Ty.Sampled (pool count arg.evaluate.1) (· ≠ []) := by
  have hwell := arg.wellFormed_evaluate
  have htext := arg.text?_evaluate
  generalize arg.evaluate.1 = v at hwell htext ⊢
  cases v with
  | concrete d => exact Ty.sampled_ok (by simp)
  | symbolic t =>
    obtain ⟨ds, hds, _⟩ | herror := Ty.sampled_samples (Ty.printable_of_name? htext) count
    · exact .inl ⟨ds, hds, Ty.samples_ne_nil hwell hds⟩
    · exact .inr herror

end Sampling

def CaseValue.canSample (count : Int) (v : CaseValue) : Bool :=
  match Sampling.pool count v with
  | .error (.unsampleable _) => false
  | _ => true

namespace Directive

variable {d : Directive} {count : Int}

def values (d : Directive) : List CaseValue := (d.arguments?.getD []).map (·.evaluate.1)

def mock? (d : Directive) : Option Mock :=
  match d.body with
  | .mock symbol substitute => some ⟨symbol, substitute.evaluate.1⟩
  | _ => none

def expectation? (d : Directive) : Option CaseValue :=
  match d.body with
  | .returns expected => some expected.evaluate.1
  | _ => none

def draws (count : Int) (d : Directive) : Bool :=
  d.kind == .sample && d.values.any (·.isSymbolic) && d.values.all (·.canSample count)

theorem isCaseLike_of_draws (h : d.draws count = true) : d.isCaseLike = true := by
  obtain ⟨span, body⟩ := d
  cases body <;> simp_all [draws, kind, isCaseLike, arguments?]

theorem mock?_caseLike (h : d.isCaseLike = true) : d.mock? = none := by
  obtain ⟨span, body⟩ := d
  cases body with
  | oneCase | sample | skipCase => rfl
  | skipFunction | pure | mock | returns => cases h

theorem sampled_pools (d : Directive) (count : Int) :
    Ty.Sampled (d.values.mapM (Sampling.pool count)) fun pools => ∀ pool ∈ pools, pool ≠ [] :=
  Ty.Sampled.mapM (List.forall_mem_map.mpr fun arg _ => Sampling.sampled_pool arg count)

theorem canSample_of_mapM {pools : List (List Datum)} (h : d.values.mapM (Sampling.pool count) = .ok pools) :
    d.values.all (·.canSample count) = true := by
  refine List.all_eq_true.mpr fun v hv => ?_
  obtain ⟨pool, _, hpool⟩ := forall₂_partner (mapM_eq_ok.mp h).flip hv
  rw [CaseValue.canSample, hpool]

theorem exists_unsampleable {n : String} (h : d.values.mapM (Sampling.pool count) = .error (.unsampleable n)) :
    d.values.all (·.canSample count) = false := by
  obtain ⟨v, hv, hpool⟩ := exists_of_mapM_error h
  refine List.all_eq_false.mpr ⟨v, hv, ?_⟩
  rw [CaseValue.canSample, hpool]
  simp

theorem exists_pools (h : d.draws count = true) : ∃ pools, d.values.mapM (Sampling.pool count) = .ok pools ∧
    ∀ pool ∈ pools, pool ≠ [] := by
  obtain hpools | ⟨n, hn⟩ := d.sampled_pools count
  · exact hpools
  · rw [draws, exists_unsampleable hn, Bool.and_false] at h
    cases h

end Directive

namespace Plan

def mocks (ds : List Directive) : List Mock := ds.filterMap (·.mock?)

def expectation (ds : List Directive) : Option CaseValue := (ds.filterMap (·.expectation?)).getLast?

def leading (ds : List Directive) : List Directive := ds.takeWhile (!·.isCaseLike)

/-- A directive that describes cases, with all before it and with those after it that stand before the next one. -/
structure Site where
  before : List Directive
  directive : Directive
  after : List Directive

def sites (before : List Directive) : List Directive → List Site
  | [] => []
  | d :: ds =>
    if d.isCaseLike then ⟨before, d, leading ds⟩ :: sites (before ++ [d]) ds else sites (before ++ [d]) ds

@[simp] theorem expectation_nil : expectation [] = none := rfl

theorem expectation_cons (d : Directive) (ds : List Directive) :
    expectation (d :: ds) = (expectation ds).or d.expectation? := by
  unfold expectation
  cases h : d.expectation? with
  | none => rw [List.filterMap_cons_none h, Option.or_none]
  | some v =>
    rw [List.filterMap_cons_some h, List.getLast?_cons]
    cases (ds.filterMap (·.expectation?)).getLast? <;> rfl

theorem mocks_snoc (ds : List Directive) (d : Directive) : mocks (ds ++ [d]) = mocks ds ++ d.mock?.toList := by
  unfold mocks
  cases h : d.mock? <;> simp [h]

theorem leading_other {d : Directive} {ds : List Directive} (h : d.isCaseLike = false) :
    leading (d :: ds) = d :: leading ds := by
  simp [leading, h]

theorem leading_caseLike {d : Directive} {ds : List Directive} (h : d.isCaseLike = true) :
    leading (d :: ds) = [] := by
  simp [leading, h]

theorem sites_other {d : Directive} {before ds : List Directive} (h : d.isCaseLike = false) :
    sites before (d :: ds) = sites (before ++ [d]) ds := by
  simp [sites, h]

theorem sites_caseLike {d : Directive} {before ds : List Directive} (h : d.isCaseLike = true) :
    sites before (d :: ds) = ⟨before, d, leading ds⟩ :: sites (before ++ [d]) ds := by
  simp [sites, h]

theorem mem_of_mem_sites {s : Site} {before ds : List Directive} (h : s ∈ sites before ds) : s.directive ∈ ds := by
  induction ds generalizing before with
  | nil => cases h
  | cons d ds ih =>
    unfold sites at h
    split at h
    · rcases List.mem_cons.mp h with rfl | h
      · simp
      · exact List.mem_cons_of_mem _ (ih h)
    · exact List.mem_cons_of_mem _ (ih h)

end Plan

def Case.expecting (e : Option CaseValue) (c : Case) : Case := { c with expected := e.or c.expected }

@[simp] theorem Case.expecting_none : Case.expecting none = id := rfl

theorem Case.expecting_comp (e e' : Option CaseValue) :
    Case.expecting e ∘ Case.expecting e' = Case.expecting (e.or e') := by
  funext c
  simp [expecting, Option.or_assoc]

def Case.Becomes (e : Option CaseValue) (c c' : Case) : Prop := c' = { c with expected := e, place := c'.place }

def Case.headed (c : Case) : String × List CaseValue := (c.label, c.arguments)

theorem Case.map_headed {e : Option CaseValue} {cs cs' : List Case} (h : List.Forall₂ (Becomes e) cs cs') :
    cs'.map headed = cs.map headed := by
  rw [← List.forall₂_eq_eq_eq, List.forall₂_map_left_iff, List.forall₂_map_right_iff]
  exact h.flip.imp fun c' c hc => congrArg headed hc

def SampleLimits.InRange (limits : SampleLimits) : Prop := 0 ≤ limits.rows ∧ limits.rows ≤ Sampling.rowLimit

namespace Plan.Site

variable {s : Site} {limits : SampleLimits} {cs : List Case}

def number (s : Site) : Nat := s.before.countP (·.isCaseLike) + 1

def label (s : Site) : String := (s.directive.name?.filter (· ≠ "")).getD ("case " ++ toString s.number)

def plain (s : Site) : Case where
  label := s.label
  directive := s.directive
  arguments := s.directive.values
  mocks := Plan.mocks s.before
  skipped := s.directive.kind == .skip

@[simp] theorem plain_arguments : s.plain.arguments = s.directive.values := rfl

def cases? (limits : SampleLimits) (s : Site) : Except SampleError (List Case) :=
  if s.directive.kind == .sample && s.plain.isSymbolic then Planning.sampled limits s.plain else .ok [s.plain]

def drawn (s : Site) (rows : List (List Datum)) : List Case :=
  rows.zipIdx.map fun (row, i) =>
    { s.plain with label := s.label ++ "#" ++ toString (i + 1), arguments := row.map .concrete }

theorem cases?_sampled (h : s.directive.draws limits.count = true) :
    s.cases? limits = Planning.sampled limits s.plain := by
  simp only [Directive.draws, Bool.and_eq_true] at h
  exact if_pos (by simpa [Case.isSymbolic, plain] using h.1)

theorem cases?_single (h : s.directive.draws limits.count = false) : s.cases? limits = .ok [s.plain] := by
  unfold cases?
  split
  · next hs =>
    obtain ⟨pools, hpools, _⟩ | ⟨n, hn⟩ := s.directive.sampled_pools limits.count
    · have hall := Directive.canSample_of_mapM hpools
      rw [Directive.draws, hall, Bool.and_true] at h
      exact absurd (hs.symm.trans h) (by decide)
    · have hexpand : Sampling.expand s.directive.values limits.count limits.rows = .error (.unsampleable n) :=
        bind_eq_error.mpr (.inl hn)
      rw [Planning.sampled, plain_arguments, hexpand]
  · rfl

theorem cases?_drawn (h : s.directive.draws limits.count = true) (hl : limits.InRange) : ∃ rows,
    Sampling.expand s.directive.values limits.count limits.rows = .ok rows ∧ s.cases? limits = .ok (s.drawn rows) ∧
      (rows = [] ↔ limits.rows = 0) := by
  obtain ⟨pools, hpools, hne⟩ := Directive.exists_pools h
  have hexpand : Sampling.expand s.directive.values limits.count limits.rows =
      .ok (Sampling.rows limits.rows.toNat pools) := by
    rw [Sampling.expand, hpools]
    exact if_neg (not_or.mpr ⟨Int.not_lt.mpr hl.1, Int.not_lt.mpr hl.2⟩)
  refine ⟨_, hexpand, ?_, ?_⟩
  · rw [cases?_sampled h, Planning.sampled, plain_arguments, hexpand]
    rfl
  · constructor
    · intro hrows
      by_contra hzero
      have hpos : limits.rows.toNat ≠ 0 := by
        have := hl.1
        omega
      exact Sampling.rows_ne_nil hpos hne hrows
    · intro hzero
      rw [hzero]
      exact Sampling.rows_zero pools

theorem cases?_error (h : s.directive.draws limits.count = true) (hl : ¬ limits.InRange) :
    s.cases? limits = .error .badLimit := by
  obtain ⟨pools, hpools, _⟩ := Directive.exists_pools h
  have hbad : limits.rows < 0 ∨ Sampling.rowLimit < limits.rows := by
    unfold SampleLimits.InRange at hl
    omega
  have hexpand : Sampling.expand s.directive.values limits.count limits.rows = .error .badLimit := by
    rw [Sampling.expand, hpools]
    exact if_pos hbad
  rw [cases?_sampled h, Planning.sampled, plain_arguments, hexpand]

def Gives (limits : SampleLimits) (s : Site) (cs : List Case) : Prop :=
  ∃ unfilled, s.cases? limits = .ok unfilled ∧ cs = unfilled.map (Case.expecting (Plan.expectation s.after))

theorem exists_cases? (s : Site) (h : s.directive.draws limits.count = true → limits.InRange) : ∃ cs,
    s.cases? limits = .ok cs ∧ (cs = [] ↔ limits.rows = 0 ∧ s.directive.draws limits.count = true) := by
  cases hd : s.directive.draws limits.count with
  | false => exact ⟨_, cases?_single hd, by simp⟩
  | true =>
    obtain ⟨rows, _, hcs, hempty⟩ := cases?_drawn hd (h hd)
    exact ⟨_, hcs, by simp [drawn, hempty]⟩

theorem mem_cases? {c : Case} (h : s.cases? limits = .ok cs) (hc : c ∈ cs) :
    c = { s.plain with label := c.label, arguments := c.arguments } := by
  cases hd : s.directive.draws limits.count with
  | false =>
    rw [cases?_single hd] at h
    obtain rfl := List.mem_singleton.mp (Except.ok.inj h ▸ hc)
    rfl
  | true =>
    by_cases hl : limits.InRange
    · obtain ⟨rows, _, hdrawn, _⟩ := cases?_drawn hd hl
      obtain rfl := Except.ok.inj (hdrawn.symm.trans h)
      obtain ⟨_, _, rfl⟩ := List.mem_map.mp hc
      rfl
    · rw [cases?_error hd hl] at h
      cases h

theorem mem_filled {e : Option CaseValue} {unfilled : List Case} (h : s.cases? limits = .ok unfilled)
    (hcs : List.Forall₂ (Case.Becomes e) unfilled cs) : ∀ c ∈ cs,
      c = { s.plain with label := c.label, arguments := c.arguments, expected := e, place := c.place } := by
  intro c hc
  obtain ⟨c₀, hc₀, hbecomes⟩ := forall₂_partner hcs hc
  have hplain := mem_cases? h hc₀
  cases c
  cases c₀
  simp only [Case.Becomes, Case.mk.injEq] at hbecomes hplain ⊢
  simp_all

end Plan.Site

def Plan.strays (limits : SampleLimits) (ss : List Plan.Site) : List Directive :=
  if limits.rows = 0 then (ss.filter (·.directive.draws limits.count)).flatMap (·.after) else []

theorem Plan.strays_cons (limits : SampleLimits) (s : Plan.Site) (ss : List Plan.Site) :
    strays limits (s :: ss) =
      (if limits.rows = 0 ∧ s.directive.draws limits.count = true then s.after else []) ++ strays limits ss := by
  by_cases hrows : limits.rows = 0
  · cases hd : s.directive.draws limits.count <;> simp [strays, hrows, hd]
  · simp [strays, hrows]

theorem Plan.strays_eq_nil {limits : SampleLimits} {ds : List Directive}
    (h : ∀ d ∈ ds, d.draws limits.count = true → limits.rows ≠ 0) : strays limits (sites [] ds) = [] := by
  unfold strays
  split
  · next hrows =>
    have hnone : (sites [] ds).filter (·.directive.draws limits.count) = [] :=
      List.filter_eq_nil_iff.mpr fun s hs hd => h _ (mem_of_mem_sites hs) hd hrows
    rw [hnone, List.flatMap_nil]
  · rfl

namespace Planning

variable {p : Planning} {limits : SampleLimits} {d : Directive}

theorem labelOf_eq (name : Option String) (count : Nat) :
    labelOf name count = (name.filter (· ≠ "")).getD ("case " ++ toString count) := by
  cases name with
  | none => rfl
  | some n => by_cases h : n = "" <;> simp [labelOf, Option.filter, h]

theorem add_other (p : Planning) (limits : SampleLimits) (h : d.isCaseLike = false) : ∃ errors, p.add limits d = .ok
    { before := p.before
      last := p.last.map (Case.expecting d.expectation?)
      mocks := p.mocks ++ d.mock?.toList
      shared := (if p.last.isEmpty then d.expectation? else none).or p.shared
      count := p.count
      diagnostics := errors } := by
  obtain ⟨span, body⟩ := d
  cases body with
  | oneCase | sample | skipCase => cases h
  | skipFunction | pure => exact ⟨p.diagnostics, by simp [add, Directive.expectation?, Directive.mock?]⟩
  | mock symbol substitute =>
    refine ⟨p.diagnostics ++ substitute.evaluate.2, ?_⟩
    simp [add, addMock, Directive.expectation?, Directive.mock?]
  | returns expected =>
    refine ⟨p.diagnostics ++ expected.evaluate.2, ?_⟩
    cases hl : p.last.isEmpty with
    | true => simp [add, addExpectation, Directive.expectation?, Directive.mock?, hl, Case.expecting]
    | false => simp [add, addExpectation, Directive.expectation?, Directive.mock?, hl, Case.expecting]

theorem add_of_arguments {args : List ArgumentText} (h : d.arguments? = some args) :
    p.add limits d = p.addCases limits d args := by
  obtain ⟨span, body⟩ := d
  cases body with
  | oneCase | sample | skipCase => exact Option.some.inj h ▸ rfl
  | skipFunction | pure | mock | returns => cases h

theorem add_caseLike {done : List Directive} (after : List Directive) (h : d.isCaseLike = true)
    (hm : p.mocks = Plan.mocks done) (hc : p.count = done.countP (·.isCaseLike)) : ∃ errors, p.add limits d = do
      let cs ← Plan.Site.cases? limits ⟨done, d, after⟩
      return { p with before := p.before ++ p.last, last := cs, count := p.count + 1, diagnostics := errors } := by
  obtain ⟨args, hargs⟩ := Option.isSome_iff_exists.mp h
  have hplain : Plan.Site.plain ⟨done, d, after⟩ =
      { label := labelOf d.name? (p.count + 1), directive := d, arguments := (ArgumentText.evaluateAll args).1,
        mocks := p.mocks, skipped := d.kind == .skip } := by
    rw [labelOf_eq, hm, hc, Plan.Site.plain, Directive.values, hargs]
    rfl
  refine ⟨p.diagnostics ++ (ArgumentText.evaluateAll args).2, ?_⟩
  rw [add_of_arguments hargs, Plan.Site.cases?, hplain]
  unfold addCases
  dsimp only
  split <;> rfl

theorem run_ok {ds : List Directive} (h : ∀ d ∈ ds, d.draws limits.count = true → limits.InRange) (p : Planning)
    (done : List Directive) (hm : p.mocks = Plan.mocks done) (hc : p.count = done.countP (·.isCaseLike)) :
    ∃ q groups, ds.foldlM (fun p d => p.add limits d) p = .ok q ∧
      q.before ++ q.last =
        p.before ++ p.last.map (Case.expecting (Plan.expectation (Plan.leading ds))) ++ groups.flatten ∧
      List.Forall₂ (Plan.Site.Gives limits) (Plan.sites done ds) groups ∧
      q.shared = (Plan.expectation ((if p.last.isEmpty then Plan.leading ds else []) ++
        Plan.strays limits (Plan.sites done ds))).or p.shared := by
  -- on the directives that are still to be read, after those that are done
  induction ds generalizing p done with
  | nil => exact ⟨p, [], rfl, by simp [Plan.leading], .nil, by simp [Plan.leading, Plan.strays, Plan.sites]⟩
  | cons d ds ih =>
    obtain ⟨hd, hds⟩ := List.forall_mem_cons.mp h
    rw [List.foldlM_cons]
    cases hcase : d.isCaseLike with
    | false =>
      obtain ⟨errors, hadd⟩ := add_other p limits hcase
      rw [hadd, Plan.leading_other hcase, Plan.sites_other hcase, Plan.expectation_cons]
      obtain ⟨q, groups, hq, hcases, hgroups, hshared⟩ := ih hds
        ⟨p.before, p.last.map (Case.expecting d.expectation?), p.mocks ++ d.mock?.toList,
          (if p.last.isEmpty then d.expectation? else none).or p.shared, p.count, errors⟩
        (done ++ [d]) (by rw [Plan.mocks_snoc, hm]) (by simp [hc, hcase])
      refine ⟨q, groups, hq, ?_, hgroups, ?_⟩
      · rw [hcases, List.map_map, Case.expecting_comp]
      · -- the expectation comes before the later ones, and is shared exactly if they are
        simp only [hshared, List.isEmpty_map]
        cases p.last.isEmpty <;> simp [Plan.expectation_cons, Option.or_assoc]
    | true =>
      obtain ⟨errors, hadd⟩ := add_caseLike (Plan.leading ds) hcase hm hc
      obtain ⟨cs, hcs, hempty⟩ := Plan.Site.exists_cases? ⟨done, d, Plan.leading ds⟩ hd
      rw [hadd, hcs, Plan.leading_caseLike hcase, Plan.sites_caseLike hcase]
      obtain ⟨q, groups, hq, hcases, hgroups, hshared⟩ := ih hds
        { p with before := p.before ++ p.last, last := cs, count := p.count + 1, diagnostics := errors }
        (done ++ [d]) (by simp [Plan.mocks_snoc, Directive.mock?_caseLike hcase, hm]) (by simp [hc, hcase])
      refine ⟨q, cs.map (Case.expecting (Plan.expectation (Plan.leading ds))) :: groups, hq, ?_,
        .cons ⟨cs, hcs, rfl⟩ hgroups, ?_⟩
      · rw [hcases]
        simp
      · -- the new cases are none exactly if what follows the directive is astray
        rw [hshared, Plan.strays_cons]
        simp only [List.isEmpty_iff, hempty, ite_self, List.nil_append]

theorem run_error {ds : List Directive} (hl : ¬ limits.InRange) (h : ∃ d ∈ ds, d.draws limits.count = true)
    (p : Planning) (done : List Directive) (hm : p.mocks = Plan.mocks done)
    (hc : p.count = done.countP (·.isCaseLike)) :
    ds.foldlM (fun p d => p.add limits d) p = .error .badLimit := by
  induction ds generalizing p done with
  | nil => simp at h
  | cons d ds ih =>
    rw [List.foldlM_cons]
    cases hcase : d.isCaseLike with
    | false =>
      obtain ⟨errors, hadd⟩ := add_other p limits hcase
      rw [hadd]
      refine ih ?_ _ (done ++ [d]) (by rw [Plan.mocks_snoc, hm]) (by simp [hc, hcase])
      obtain ⟨d', hmem, hdraws⟩ := h
      rcases List.mem_cons.mp hmem with rfl | hmem
      · exact absurd (Directive.isCaseLike_of_draws hdraws) (by simp [hcase])
      · exact ⟨d', hmem, hdraws⟩
    | true =>
      obtain ⟨errors, hadd⟩ := add_caseLike (Plan.leading ds) hcase hm hc
      rw [hadd]
      cases hdraws : d.draws limits.count with
      | true =>
        rw [Plan.Site.cases?_error hdraws hl]
        rfl
      | false =>
        rw [Plan.Site.cases?_single hdraws]
        refine ih ?_ _ (done ++ [d]) ?_ (by simp [hc, hcase])
        · simpa [hdraws] using h
        · simp [Plan.mocks_snoc, Directive.mock?_caseLike hcase, hm]

theorem forall₂_cases (p : Planning) :
    List.Forall₂ (fun c c' => c' = { c with expected := c.expected.or p.shared, place := c'.place })
      (p.before ++ p.last) p.cases := by
  unfold cases
  generalize p.before ++ p.last = cs
  have hcs : cs = cs.zipIdx.map Prod.fst := by simp
  nth_rewrite 1 [hcs]
  rw [List.forall₂_map_left_iff, List.forall₂_map_right_iff, List.forall₂_same]
  exact fun _ _ => rfl

end Planning

namespace Plan

variable {limits : SampleLimits} {ds : List Directive}

theorem exists_groups (h : ∀ d ∈ ds, d.draws limits.count = true → limits.InRange) :
    ∃ plan groups, ofDirectives ds limits = .ok plan ∧ plan.cases = groups.flatten ∧
      List.Forall₂ (fun s cs => ∃ unfilled, s.cases? limits = .ok unfilled ∧
        List.Forall₂ (Case.Becomes ((expectation s.after).or
          (expectation (leading ds ++ strays limits (sites [] ds))))) unfilled cs) (sites [] ds) groups := by
  obtain ⟨q, unshared, hq, hcases, hgives, hshared⟩ := Planning.run_ok h {} [] rfl rfl
  have hread : q.before ++ q.last = unshared.flatten := by simpa using hcases
  obtain ⟨groups, hgroups, hfilled⟩ := forall₂_flatten (hread ▸ q.forall₂_cases)
  refine ⟨⟨q.cases, q.diagnostics⟩, groups, ?_, hgroups, forall₂_comp hgives hfilled ?_⟩
  · rw [ofDirectives, hq]
    rfl
  · rintro s - _ cs ⟨unfilled, hunfilled, rfl⟩ hcs
    refine ⟨unfilled, hunfilled, forall₂_imp_mem (List.forall₂_map_left_iff.mp hcs) fun c hc c' hc' => ?_⟩
    have hnone : c.expected = none := congrArg Case.expected (Site.mem_cases? hunfilled hc)
    rw [Case.Becomes, hc', hshared]
    simp [Case.expecting, hnone]

theorem ofDirectives_error (hl : ¬ limits.InRange) (h : ∃ d ∈ ds, d.draws limits.count = true) :
    ofDirectives ds limits = .error .badLimit := by
  rw [ofDirectives, Planning.run_error hl h {} [] rfl rfl]
  rfl

structure Site.Asks (limits : SampleLimits) (s : Site) (cs : List Case) : Prop where
  directive : ∀ c ∈ cs, c.directive = s.directive
  mocks : ∀ c ∈ cs, c.mocks = Plan.mocks s.before
  skipped : ∀ c ∈ cs, c.skipped = true ↔ s.directive.kind = .skip
  single : s.directive.draws limits.count = false → cs.map (·.headed) = [(s.label, s.directive.values)]
  drawn : s.directive.draws limits.count = true → ∃ rows,
    Sampling.expand s.directive.values limits.count limits.rows = .ok rows ∧
      cs.map (·.headed) = rows.zipIdx.map fun (row, i) => (s.label ++ "#" ++ toString (i + 1), row.map .concrete)

theorem Site.asks_of_becomes {s : Site} {e : Option CaseValue} {unfilled cs : List Case}
    (hl : s.directive.draws limits.count = true → limits.InRange) (h : s.cases? limits = .ok unfilled)
    (hcs : List.Forall₂ (Case.Becomes e) unfilled cs) : s.Asks limits cs where
  directive c hc := congrArg Case.directive (mem_filled h hcs c hc)
  mocks c hc := congrArg Case.mocks (mem_filled h hcs c hc)
  skipped c hc := by
    rw [congrArg Case.skipped (mem_filled h hcs c hc)]
    simp [plain]
  single hd := by
    rw [Case.map_headed hcs, ← Except.ok.inj ((cases?_single hd).symm.trans h)]
    rfl
  drawn hd := by
    obtain ⟨rows, hrows, hdrawn, _⟩ := cases?_drawn hd (hl hd)
    refine ⟨rows, hrows, ?_⟩
    rw [Case.map_headed hcs, ← Except.ok.inj (hdrawn.symm.trans h), Site.drawn, List.map_map]
    rfl

/-- A plan asks for the cases of each site in order. Only if rows have to be drawn and their number is out of range,
there is no plan. -/
theorem cases_follow_directives (ds : List Directive) (limits : SampleLimits) :
    ((∀ d ∈ ds, d.draws limits.count = true → limits.InRange) →
      ∃ plan groups, ofDirectives ds limits = .ok plan ∧ plan.cases = groups.flatten ∧
        List.Forall₂ (Site.Asks limits) (sites [] ds) groups) ∧
    (¬ limits.InRange → (∃ d ∈ ds, d.draws limits.count = true) → ofDirectives ds limits = .error .badLimit) := by
  refine ⟨fun h => ?_, ofDirectives_error⟩
  obtain ⟨plan, groups, hplan, hcases, hgroups⟩ := exists_groups h
  refine ⟨plan, groups, hplan, hcases, forall₂_imp_mem hgroups ?_⟩
  rintro s hs cs ⟨unfilled, hunfilled, hcs⟩
  exact Site.asks_of_becomes (h _ (mem_of_mem_sites hs)) hunfilled hcs

def bothTruths : Directive := ⟨.onLine "f" 1 3 26, .sample none [⟨"T.boolean", .onLine "f" 1 17 25⟩]⟩

theorem bothTruths_planned_in_range :
    (∃ plan groups, ofDirectives [bothTruths] ⟨3, Sampling.rowLimit⟩ = .ok plan ∧ plan.cases = groups.flatten ∧
      List.Forall₂ (Site.Asks ⟨3, Sampling.rowLimit⟩) [⟨[], bothTruths, []⟩] groups) ∧
    ofDirectives [bothTruths] ⟨3, Sampling.rowLimit + 1⟩ = .error .badLimit := by
  have hdraws : bothTruths.draws 3 = true := by decide +kernel
  have hsites : sites [] [bothTruths] = [⟨[], bothTruths, []⟩] := rfl
  constructor
  · rw [← hsites]
    exact (cases_follow_directives _ _).1 fun _ _ _ => ⟨by decide, Int.le_refl _⟩
  · exact (cases_follow_directives _ _).2 (fun h => absurd h.2 (by decide)) ⟨bothTruths, by simp, hdraws⟩

def Expects (plan : Plan) (limits : SampleLimits) (ds : List Directive) (shared : Option CaseValue) : Prop :=
  ∃ groups, plan.cases = groups.flatten ∧ List.Forall₂ (fun s cs =>
    (cs = [] ↔ limits.rows = 0 ∧ s.directive.draws limits.count = true) ∧
      ∀ c ∈ cs, c.directive = s.directive ∧ c.expected = (expectation s.after).or shared) (sites [] ds) groups

theorem exists_expects (h : ∀ d ∈ ds, d.draws limits.count = true → limits.InRange) :
    ∃ plan, ofDirectives ds limits = .ok plan ∧
      plan.Expects limits ds (expectation (leading ds ++ strays limits (sites [] ds))) := by
  obtain ⟨plan, groups, hplan, hcases, hgroups⟩ := exists_groups h
  refine ⟨plan, hplan, groups, hcases, forall₂_imp_mem hgroups ?_⟩
  rintro s hs cs ⟨unfilled, hunfilled, hcs⟩
  obtain ⟨cs', hcs', hempty⟩ := s.exists_cases? (h _ (mem_of_mem_sites hs))
  obtain rfl := Except.ok.inj (hcs'.symm.trans hunfilled)
  constructor
  · rw [← hempty, ← List.length_eq_zero_iff, ← List.length_eq_zero_iff, hcs.length_eq]
  · intro c hc
    have hfilled := Site.mem_filled hunfilled hcs c hc
    exact ⟨congrArg Case.directive hfilled, congrArg Case.expected hfilled⟩

/-- Each case expects the last value that is expected between its directive and the next one with cases, or else the
last one before all of them. If no rows are asked for, then what follows a drawn directive counts as before all. -/
theorem expectations_follow_cases (ds : List Directive) (limits : SampleLimits) :
    ((∀ d ∈ ds, d.draws limits.count = true → limits.InRange ∧ limits.rows ≠ 0) →
      ∃ plan, ofDirectives ds limits = .ok plan ∧ plan.Expects limits ds (expectation (leading ds))) ∧
    (limits.rows = 0 → ∃ plan, ofDirectives ds limits = .ok plan ∧
      plan.Expects limits ds (expectation (leading ds ++ strays limits (sites [] ds)))) ∧
    (¬ limits.InRange → (∃ d ∈ ds, d.draws limits.count = true) → ofDirectives ds limits = .error .badLimit) := by
  refine ⟨fun h => ?_, fun h => ?_, ofDirectives_error⟩
  · have hstrays : strays limits (sites [] ds) = [] := strays_eq_nil fun d hd hdraws => (h d hd hdraws).2
    simpa [hstrays] using exists_expects fun d hd hdraws => (h d hd hdraws).1
  · exact exists_expects fun d _ _ => ⟨h ▸ Int.le_refl 0, by rw [h]; decide⟩

def caseThenSamples : List Directive :=
  [⟨.onLine "f" 1 3 16, .oneCase none [⟨"1", .onLine "f" 1 15 15⟩]⟩,
    ⟨.onLine "f" 2 3 25, .sample none [⟨"T.number", .onLine "f" 2 17 24⟩]⟩,
    ⟨.onLine "f" 3 3 18, .returns ⟨"5", .onLine "f" 3 17 17⟩⟩]

theorem caseThenSamples_shares : expectation (leading caseThenSamples) = none ∧
    ∃ plan, ofDirectives caseThenSamples ⟨3, 0⟩ = .ok plan ∧ ∃ c ∈ plan.cases, c.directive.kind = .oneCase ∧
      c.expected = some (ArgumentText.mk "5" (.onLine "f" 3 17 17)).evaluate.1 := by
  have hstrays : strays ⟨3, 0⟩ (sites [] caseThenSamples) =
      [⟨.onLine "f" 3 3 18, .returns ⟨"5", .onLine "f" 3 17 17⟩⟩] := by
    decide +kernel
  obtain ⟨plan, hplan, groups, hcases, hgroups⟩ := (expectations_follow_cases caseThenSamples ⟨3, 0⟩).2.1 rfl
  rw [hstrays] at hgroups
  refine ⟨rfl, plan, hplan, ?_⟩
  obtain _ | ⟨⟨hempty, hexpects⟩, _⟩ := hgroups
  obtain ⟨c, hc⟩ := List.exists_mem_of_ne_nil _ (mt hempty.mp fun h => Bool.false_ne_true h.2)
  obtain ⟨hdirective, hexpected⟩ := hexpects c hc
  exact ⟨c, by simp [hcases, hc], by rw [hdirective]; rfl, hexpected⟩

end Plan

end Casewise
