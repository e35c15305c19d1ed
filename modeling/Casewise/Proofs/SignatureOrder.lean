import Casewise.Proofs.AnalysisEnds
import Casewise.Proofs.MergeNames

namespace Casewise

theorem Ty.merge?_equal_literals {a b : Scalar} (h : a.same b = true) :
    Ty.merge? true [.literal a, .literal b] = some (.literal a) := by
  have hdistinct : distinctBy Ty.same ([Ty.literal a, .literal b].flatMap Ty.parts) = [.literal a] := by
    simp [Ty.parts, Ty.members, distinctBy, Ty.same, h]
  have hunion : Ty.union [.literal a, .literal b] = .literal a := by
    rw [Ty.union_eq, hdistinct]
    cases a with
    | boolean c => cases c <;> rfl
    | _ => rfl
  exact congrArg some hunion

namespace Signature

variable {f : AnnotatedFunction} {found others : List (Ty × List Ty)}

def contributions (f : AnnotatedFunction) (found : List (Ty × List Ty)) : List (List Ty) :=
  f.definition.params.names.zipIdx.map (fun p => found.filterMap fun s => s.2[p.2]?) ++
    [(found.map (·.1)).filter (!isThrows ·)]

def paramTypes? (f : AnnotatedFunction) (found : List (Ty × List Ty)) : Option (List (String × Ty)) :=
  f.definition.params.names.zipIdx.mapM fun p =>
    (Ty.merge? f.isPure (found.filterMap fun s => s.2[p.2]?)).map fun t => (p.1, t)

def result? (f : AnnotatedFunction) (found : List (Ty × List Ty)) : Option Ty :=
  if ((found.map (·.1)).filter (!isThrows ·)).isEmpty then some .never
  else Ty.merge? f.isPure ((found.map (·.1)).filter (!isThrows ·))

theorem merge?_eq (f : AnnotatedFunction) (found : List (Ty × List Ty)) : merge? f found =
    (paramTypes? f found).bind fun params => (result? f found).map fun t => ⟨f.name, params, t, found.length⟩ := by
  by_cases he : ((found.map (·.1)).filter (!isThrows ·)).isEmpty = true <;>
    simp only [merge?, paramTypes?, result?, he, if_true, Bool.false_eq_true, if_false, Option.map_eq_bind] <;> rfl

def observed {γ : Type} (k : Ty → γ) (s : Signature) : String × List (String × γ) × γ × Nat :=
  (s.name, s.params.map fun p => (p.1, k p.2), k s.returns, s.cases)

theorem observed_merge? {γ : Type} {k : Ty → γ} (hp : others.Perm found)
    (h : ∀ ts ∈ contributions f found, ∀ us, us.Perm ts →
      (Ty.merge? f.isPure us).map k = (Ty.merge? f.isPure ts).map k) :
    (merge? f others).map (observed k) = (merge? f found).map (observed k) := by
  have hparams : (paramTypes? f others).map (List.map fun p => (p.1, k p.2)) =
      (paramTypes? f found).map (List.map fun p => (p.1, k p.2)) := by
    apply map_mapM_congr
    intro p hmem
    have hk := h _ (List.mem_append_left _ (List.mem_map_of_mem hmem)) _ (hp.filterMap _)
    have hpair (x : Option Ty) : (x.map fun t => (p.1, t)).map (fun p => (p.1, k p.2)) = (x.map k).map (p.1, ·) := by
      cases x <;> rfl
    rw [hpair, hpair, hk]
  have hresult : (result? f others).map k = (result? f found).map k := by
    have hreturns := (hp.map (·.1)).filter (!isThrows ·)
    have hk := h _ (List.mem_append_right _ (List.mem_singleton_self _)) _ hreturns
    rw [result?, result?, hreturns.isEmpty_eq]
    split
    · rfl
    · exact hk
  have hobserved (found : List (Ty × List Ty)) : (merge? f found).map (observed k) =
      ((paramTypes? f found).map (List.map fun p => (p.1, k p.2))).bind fun params =>
        ((result? f found).map k).map fun t => (f.name, params, t, found.length) := by
    rw [merge?_eq]
    cases paramTypes? f found <;> cases result? f found <;> rfl
  rw [hobserved, hobserved, hparams, hresult, hp.length_eq]

theorem ofResults?_eq {results : List CaseResult} (h : successes results ≠ []) :
    ofResults? f results = (merge? f (successes results)).map (·, []) := by
  unfold ofResults?
  split
  · next he => exact absurd he h
  · rfl

theorem observed_ofResults? {γ : Type} {k : Ty → γ} {results reordered : List CaseResult} (hp : reordered.Perm results)
    (h : ∀ ts ∈ contributions f (successes results), ∀ us, us.Perm ts →
      (Ty.merge? f.isPure us).map k = (Ty.merge? f.isPure ts).map k) :
    (ofResults? f reordered).map (fun r => (r.1.observed k, r.2)) =
      (ofResults? f results).map fun r => (r.1.observed k, r.2) := by
  have hfound : (successes reordered).Perm (successes results) := hp.filterMap _
  by_cases hn : successes results = []
  · have hn' : successes reordered = [] := List.perm_nil.mp (hn ▸ hfound)
    simp only [ofResults?, hn, hn']
  · have hn' : successes reordered ≠ [] := fun he => hn (List.nil_perm.mp (he ▸ hfound))
    have hpair (x : Option Signature) : (x.map fun s => (s, ([] : List Diagnostic))).map
        (fun r => (r.1.observed k, r.2)) = (x.map (observed k)).map fun o => (o, []) := by
      cases x <;> rfl
    rw [ofResults?_eq hn, ofResults?_eq hn', hpair, hpair, observed_merge? hfound h]

def observedText? (o : String × List (String × Option String) × Option String × Nat) : Option String :=
  (o.2.1.mapM fun p : String × Option String => p.2.map (p.1 ++ ": " ++ ·)).bind fun params =>
    o.2.2.1.map fun t => "(" ++ ", ".intercalate params ++ ") -> " ++ t

theorem text?_eq (s : Signature) : s.text? = observedText? (s.observed Ty.name?) := by
  simp only [text?, observedText?, observed, List.mapM_map, Option.map_eq_bind]
  rfl

section

variable {results reordered : List CaseResult} (hp : reordered.Perm results)
  (wf : ∀ ts ∈ contributions f (successes results), ∀ t ∈ ts, t.WellFormed)

include hp wf

theorem cases_ofResults? : (ofResults? f reordered).map (fun r => (r.1.cases, r.2)) =
    (ofResults? f results).map fun r => (r.1.cases, r.2) := by
  have h := observed_ofResults? (f := f) (k := fun _ => ()) hp fun ts hts us hus => by
    have hsome := Ty.merge?_isSome_perm f.isPure (wf ts hts) hus
    cases h : Ty.merge? f.isPure us <;> cases h' : Ty.merge? f.isPure ts <;> simp_all
  simpa [Function.comp_def, observed] using congrArg (Option.map fun p => (p.1.2.2.2, p.2)) h

theorem text?_ofResults?
    (hs : ∀ ts ∈ contributions f (successes results), Ty.SpelledAlike (ts.map (Ty.prepared f.isPure))) :
    (ofResults? f reordered).map (fun r => (r.1.text?, r.1.namedText?, r.1.cases, r.2)) =
      (ofResults? f results).map fun r => (r.1.text?, r.1.namedText?, r.1.cases, r.2) := by
  have h := observed_ofResults? (f := f) (k := Ty.name?) hp fun ts hts us hus =>
    Ty.merge?_name?_perm (wf ts hts) (hs ts hts) hus
  have hview := congrArg (Option.map fun p =>
    (observedText? p.1, (observedText? p.1).map (p.1.1 ++ ·), p.1.2.2.2, p.2)) h
  simp only [Option.map_map, Function.comp_def] at hview
  simp only [namedText?, text?_eq]
  exact hview

end

theorem text?_equal_literals (hf : f.isPure = true) {ps : List Ty} (hps : ∀ t ∈ ps, t.Printable) :
    ∃ front : String, ∀ a b : Scalar, a.same b = true →
      (merge? f [(.literal a, ps), (.literal b, ps)]).map text? = some (a.text?.map (front ++ ·)) := by
  have hcolumn (i : Nat) : ∀ t ∈ [(Ty.never, ps), (.never, ps)].filterMap fun s => s.2[i]?, t.Printable := by
    intro t ht
    obtain ⟨s, hs, hi⟩ := List.mem_filterMap.mp ht
    obtain rfl : s = (.never, ps) := by simpa using hs
    exact hps t (List.mem_of_getElem? hi)
  -- the parameters do not depend on the results
  obtain ⟨params, hparams, hp⟩ : ∃ params, paramTypes? f [(.never, ps), (.never, ps)] = some params ∧
      ∀ p ∈ params, p.2.Printable := by
    refine exists_mapM_option fun p _ => ?_
    obtain ⟨t, ht, hprintable⟩ := Ty.merge?_of_printable f.isPure (hcolumn p.2)
    exact ⟨(p.1, t), by simp [ht], hprintable⟩
  have hnames : (params.mapM fun p : String × Ty => p.2.name?.map (p.1 ++ ": " ++ ·)).isSome = true := by
    refine mapM_isSome.mpr fun p hmem => ?_
    rw [Option.isSome_map]
    exact Ty.name?_isSome (hp p hmem)
  obtain ⟨texts, htexts⟩ := Option.isSome_iff_exists.mp hnames
  refine ⟨"(" ++ ", ".intercalate texts ++ ") -> ", fun a b h => ?_⟩
  have hresult : result? f [(.literal a, ps), (.literal b, ps)] = some (.literal a) := by
    rw [result?, hf]
    exact Ty.merge?_equal_literals h
  have hmerge : merge? f [(.literal a, ps), (.literal b, ps)] = some ⟨f.name, params, .literal a, 2⟩ := by
    have hsame : paramTypes? f [(.literal a, ps), (.literal b, ps)] = some params := hparams
    rw [merge?_eq, hsame, hresult]
    rfl
  rw [hmerge, Option.map_some, text?, htexts]
  cases hn : a.text? <;> simp [Ty.name?, hn]

theorem text?_differs {results reordered : List CaseResult} {a b : Scalar} {ps : List Ty} (hf : f.isPure = true)
    (hps : ∀ t ∈ ps, t.Printable) (hsame : a.same b = true) (htext : a.text? ≠ b.text?)
    (hr : successes results = [(.literal a, ps), (.literal b, ps)])
    (ho : successes reordered = [(.literal b, ps), (.literal a, ps)]) :
    (ofResults? f reordered).map (·.1.text?) ≠ (ofResults? f results).map (·.1.text?) := by
  obtain ⟨front, hfront⟩ := text?_equal_literals hf hps
  have htexts (rs : List CaseResult) (hn : successes rs ≠ []) :
      (ofResults? f rs).map (·.1.text?) = (merge? f (successes rs)).map text? := by
    rw [ofResults?_eq hn]
    cases merge? f (successes rs) <;> rfl
  rw [htexts results (by simp [hr]), htexts reordered (by simp [ho]), hr, ho, hfront a b hsame,
    hfront b a (Scalar.same_symm hsame)]
  intro he
  have hinj : Function.Injective (front ++ · : String → String) := fun x y h => (String.append_right_inj front).mp h
  exact htext (Option.map_injective hinj (Option.some.inj he)).symm

/-- The order of cases shows neither in the count of a signature nor in whether there is one. It does not show in the
text either where equal literals are written alike, as in types without functions and, for a pure function, without
floats; equal literals that are written differently show it. -/
theorem case_order_shows_only_in_spelling (f : AnnotatedFunction) (results reordered : List CaseResult)
    (perm : reordered.Perm results) (wf : ∀ ts ∈ contributions f (successes results), ∀ t ∈ ts, t.WellFormed) :
    (ofResults? f reordered).map (fun r => (r.1.cases, r.2)) = (ofResults? f results).map (fun r => (r.1.cases, r.2)) ∧
    ((∀ ts ∈ contributions f (successes results), Ty.SpelledAlike (ts.map (Ty.prepared f.isPure))) →
      (ofResults? f reordered).map (fun r => (r.1.text?, r.1.namedText?, r.1.cases, r.2)) =
        (ofResults? f results).map fun r => (r.1.text?, r.1.namedText?, r.1.cases, r.2)) ∧
    ((∀ ts ∈ contributions f (successes results), ∀ t ∈ ts, t.OneSpelling f.isPure) →
      (ofResults? f reordered).map (fun r => (r.1.text?, r.1.namedText?, r.1.cases, r.2)) =
        (ofResults? f results).map fun r => (r.1.text?, r.1.namedText?, r.1.cases, r.2)) ∧
    ((∀ s ∈ successes results, s.1.Printable ∧ ∀ t ∈ s.2, t.Printable) →
      ∃ s ws, ofResults? f results = some (s, ws) ∧ s.text?.isSome = true) ∧
    ∀ a b ps, f.isPure = true → (∀ t ∈ ps, t.Printable) → a.same b = true → a.text? ≠ b.text? →
      successes results = [(.literal a, ps), (.literal b, ps)] →
      successes reordered = [(.literal b, ps), (.literal a, ps)] →
      (ofResults? f reordered).map (·.1.text?) ≠ (ofResults? f results).map (·.1.text?) := by
  refine ⟨cases_ofResults? perm wf, text?_ofResults? perm wf, fun h => ?_, ofResults?_of_printable,
    fun a b ps hf hps hsame htext hr ho => text?_differs hf hps hsame htext hr ho⟩
  apply text?_ofResults? perm wf
  intro ts hts
  apply Ty.spelledAlike_of_oneSpelling
  · exact List.forall_mem_map.mpr fun t ht => Ty.wellFormed_prepared (wf ts hts t ht)
  · exact List.forall_mem_map.mpr fun t ht => Ty.oneSpelling_prepared (h ts hts t ht)

def pureFunction : AnnotatedFunction where
  definition := ⟨default, "f", { ordinary := ["x"] }, [], [], []⟩
  span := .point "f" 1 1
  directives := [⟨.point "f" 1 1, .pure⟩]

def caseResult (outcome : Outcome) : CaseResult :=
  { directive := ⟨.point "f" 1 1, .oneCase none []⟩, label := "case", arguments := [], outcome := some outcome }

def mixedResults : List CaseResult :=
  [caseResult (.success (.object [("n", .text "a")]) [.int 2]), caseResult .skipped,
    caseResult (.success (.throws none) [.boolean]), caseResult (.success (.object [("m", .array (.int 1))]) [.int 2])]

theorem mixedResults_reversed :
    (ofResults? pureFunction mixedResults.reverse).map (fun r => (r.1.text?, r.1.namedText?, r.1.cases, r.2)) =
      (ofResults? pureFunction mixedResults).map (fun r => (r.1.text?, r.1.namedText?, r.1.cases, r.2)) ∧
    ∃ s ws, ofResults? pureFunction mixedResults = some (s, ws) ∧ s.text?.isSome = true := by
  have h := case_order_shows_only_in_spelling pureFunction mixedResults mixedResults.reverse (List.reverse_perm _)
    (by decide +kernel)
  exact ⟨h.2.2.1 (by decide +kernel), h.2.2.2.1 (by decide +kernel)⟩

-- the pure function keeps the first of the equal literals `1.0` and `1`
example : (ofResults? pureFunction [caseResult (.success (.literal (.number (.float 1.0))) [.boolean]),
      caseResult (.success (.int 1) [.boolean])]).bind (·.1.text?) = some "(x: boolean) -> 1.0" ∧
    (ofResults? pureFunction [caseResult (.success (.int 1) [.boolean]),
      caseResult (.success (.literal (.number (.float 1.0))) [.boolean])]).bind (·.1.text?) =
        some "(x: boolean) -> 1" := by
  decide +kernel

end Signature

end Casewise
