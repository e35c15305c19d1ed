import Casewise.Proofs.Binding
import Casewise.Proofs.Encoding
import Casewise.Proofs.MockScopes

namespace Casewise

namespace Params

variable {α ε : Type} (p : Params ε)

def positional : Bindings (Option ε) :=
  p.names.zip (List.replicate (p.names.length - p.defaults.length) none ++ p.defaults.map some)

def single : Bindings (Option ε) := p.positional ++ p.keywordOnly

def declared : List String := p.single.names ++ p.rest.toList ++ p.keywordRest.toList

def Overflows (args : List α) : Prop := p.names.length < args.length ∧ p.rest = none

/-- Why the arguments of a call do not fit, where keywords reach the parameters with the names in `reach`. -/
inductive Misfit (reach : List String) (args : List α) (keywords : Bindings α) : Prop
  | surplus (overflows : p.Overflows args)
  | repeated {k : String × α} (given : k ∈ keywords) (reached : k.1 ∈ reach) (filled : k.1 ∈ p.names.take args.length)
  | unexpected {k : String × α} (given : k ∈ keywords) (unreached : k.1 ∉ reach) (noRest : p.keywordRest = none)
  | unfilled {n : String} (required : (n, none) ∈ p.single) (noPosition : n ∉ p.names.take args.length)
      (noKeyword : ¬ (n ∈ reach ∧ n ∈ keywords.names))

/-- What fills a parameter of a call, where keywords reach the parameters with the names in `reach`. -/
inductive Fills (reach : List String) (args : List α) (keywords : Bindings α) : String → Filling α ε → Prop
  | position {i : Nat} {n : String} {a : α} (name : p.names[i]? = some n) (given : args[i]? = some a) :
      Fills reach args keywords n (.given a)
  | keyword {n : String} {a : α} (given : (n, a) ∈ keywords) (reached : n ∈ reach) :
      Fills reach args keywords n (.given a)
  | default {n : String} {e : ε} (own : (n, some e) ∈ p.single) (noPosition : n ∉ p.names.take args.length)
      (noKeyword : ¬ (n ∈ reach ∧ n ∈ keywords.names)) : Fills reach args keywords n (.default e)
  | rest {n : String} (name : p.rest = some n) : Fills reach args keywords n (.rest (args.drop p.names.length))
  | keywordRest {n : String} (name : p.keywordRest = some n) :
      Fills reach args keywords n (.keywordRest (keywords.filter fun k => k.1 ∉ reach))

def Refuses (function : String) (args : List α) (keywords : Bindings α) (e : ArityError) : Prop :=
  p.fill function args keywords = .error e ∨ ∃ entries, p.fill function args keywords = .ok ⟨entries, some e⟩

theorem names_positional : p.positional.names = p.names := by
  rw [positional, Bindings.names_zip, List.take_of_length_le]
  simp only [List.length_append, List.length_replicate, List.length_map]
  omega

theorem names_single : p.single.names = p.names ++ Bindings.names p.keywordOnly := by
  rw [← names_positional, single, Bindings.names, List.map_append]
  rfl

theorem positional_eq : p.positional =
    (p.names.take (p.names.length - p.defaults.length)).zip (List.replicate (p.names.length - p.defaults.length) none) ++
      (p.names.drop (p.names.length - p.defaults.length)).zip (p.defaults.map some) := by
  rw [← List.zip_append (by simp), List.take_append_drop]
  rfl

theorem get?_positionalDefaults (h : p.names.Nodup) (n : String) :
    p.positionalDefaults.get? n = (p.positional.get? n).join := by
  rw [positional_eq]
  unfold positionalDefaults
  generalize p.names.length - p.defaults.length = k
  set late : Bindings ε := (p.names.drop k).zip p.defaults with hlate
  have hlates : late.names = (p.names.drop k).take p.defaults.length := Bindings.names_zip _ _
  have hnodup : late.names.Nodup := hlates ▸ (h.sublist (List.drop_sublist k _)).sublist (List.take_sublist _ _)
  have hsome : (p.names.drop k).zip (p.defaults.map some) = late.map fun b => (b.1, some b.2) := by
    rw [hlate, List.zip_map_right]
    rfl
  rw [Bindings.ofPairs_of_nodup hnodup, Bindings.get?_append, hsome, Bindings.get?_mapValues]
  cases hearly : Bindings.get? n ((p.names.take k).zip (List.replicate k (none : Option ε))) with
  | none => cases late.get? n <;> rfl
  | some d =>
    -- an early name has no default, and does not come again among the late ones
    have hmem := List.of_mem_zip (Bindings.mem_of_get? hearly)
    have hd : d = none := List.eq_of_mem_replicate hmem.2
    have hn : n ∉ late.names := by
      rw [hlates]
      exact fun hm => (List.disjoint_take_drop h le_rfl) hmem.1 (List.mem_of_mem_take hm)
    rw [Bindings.get?_eq_none_iff.mpr hn, hd]
    rfl

variable {p} {args : List α} {keywords : Bindings α} {bound : Bindings (Filling α ε)}

theorem mem_names_single {n : String} : n ∈ p.single.names ↔ n ∈ p.names ∨ n ∈ Bindings.names p.keywordOnly := by
  rw [names_single, List.mem_append]

section

variable (hp : p.single.names.Nodup)

include hp

theorem nodup_names_append : (p.names ++ Bindings.names p.keywordOnly).Nodup := names_single p ▸ hp

theorem nodup_names : p.names.Nodup := (List.nodup_append.mp (nodup_names_append hp)).1

theorem get?_keywordOnly_of_positional {n : String} (hn : n ∈ p.names) : Bindings.get? n p.keywordOnly = none :=
  Bindings.get?_eq_none_iff.mpr fun hkey => (List.nodup_append.mp (nodup_names_append hp)).2.2 n hn n hkey rfl

end

theorem get?_fillDefaults (h : p.names.Nodup) (n : String) :
    (p.fillDefaults bound).get? n = (bound.get? n).or ((p.positional.get? n).join.map .default) := by
  have hfold : (p.fillDefaults bound).get? n =
      (bound.get? n).or (if n ∈ p.names then (p.positionalDefaults.get? n).map .default else none) := by
    unfold fillDefaults
    generalize p.names = ns
    induction ns generalizing bound with
    | nil => simp
    | cons m ns ih =>
      rw [List.foldl_cons, ih]
      by_cases hn : m = n
      · subst hn
        cases hm : p.positionalDefaults.get? m with
        | none => simp
        | some e => cases hb : bound.get? m <;> simp [Bindings.has, hb]
      · have hn' : n ≠ m := Ne.symm hn
        cases p.positionalDefaults.get? m with
        | none => simp [hn']
        | some e => cases hb : bound.has m <;> simp [hn, hn', Bindings.get?_set]
  rw [hfold, get?_positionalDefaults p h]
  split
  · rfl
  · next hn =>
    have hnone : p.positional.get? n = none := Bindings.get?_eq_none_iff.mpr (by rwa [names_positional])
    rw [hnone]
    rfl

theorem nodup_fillDefaults (h : bound.names.Nodup) : (p.fillDefaults bound).names.Nodup := by
  unfold fillDefaults
  refine List.foldlRecOn (motive := fun b : Bindings (Filling α ε) => b.names.Nodup) p.names _ h ?_
  intro b hb m _
  split
  · split
    · exact hb
    · exact Bindings.nodup_names_set hb
  · exact hb

theorem get?_fillKeywordOnly {function : String} (ks : Bindings (Option ε)) (n : String)
    (h : (fillKeywordOnly function bound ks).missing = none) :
    (fillKeywordOnly function bound ks).entries.get? n = (bound.get? n).or ((ks.get? n).join.map .default) := by
  induction ks generalizing bound with
  | nil => simp [fillKeywordOnly]
  | cons k ks ih =>
    obtain ⟨m, d⟩ := k
    unfold fillKeywordOnly at h ⊢
    split at h
    · next hm =>
      rw [if_pos hm, ih h]
      by_cases hn : m = n
      · subst hn
        obtain ⟨f, hf⟩ := Option.isSome_iff_exists.mp hm
        simp [hf]
      · simp [Bindings.get?, hn]
    · next hm =>
      rw [if_neg hm]
      cases d with
      | none => cases h
      | some e =>
        dsimp only at h ⊢
        rw [ih h, Bindings.get?_set]
        by_cases hn : m = n
        · subst hn
          have hb : bound.get? m = none := by simpa [Bindings.has] using hm
          simp [Bindings.get?, hb]
        · simp [Bindings.get?, hn]

theorem missing_fillKeywordOnly (function : String) (ks : Bindings (Option ε)) :
    (fillKeywordOnly function bound ks).missing = none ↔ ∀ n, ks.get? n = some none → n ∈ bound.names := by
  induction ks generalizing bound with
  | nil => simp [fillKeywordOnly]
  | cons k ks ih =>
    obtain ⟨m, d⟩ := k
    unfold fillKeywordOnly
    split
    · next hm =>
      rw [Bindings.has_iff] at hm
      simp only [ih, Bindings.get?]
      grind
    · next hm =>
      rw [Bindings.has_iff] at hm
      cases d with
      | none => simpa [Bindings.get?] using ⟨m, by simpa using hm⟩
      | some e =>
        simp only [ih, Bindings.get?, Bindings.mem_names_set]
        grind

theorem nodup_fillKeywordOnly (function : String) (ks : Bindings (Option ε)) (h : bound.names.Nodup) :
    (fillKeywordOnly function bound ks).entries.names.Nodup := by
  induction ks generalizing bound with
  | nil => exact h
  | cons k ks ih =>
    obtain ⟨m, d⟩ := k
    unfold fillKeywordOnly
    split
    · exact ih h
    · cases d with
      | none => exact h
      | some e => exact ih (Bindings.nodup_names_set h)

section

variable (hp : p.single.names.Nodup)

include hp

theorem get?_defaults {function : String} (n : String)
    (hm : (fillKeywordOnly function (p.fillDefaults bound) p.keywordOnly).missing = none) :
    (fillKeywordOnly function (p.fillDefaults bound) p.keywordOnly).entries.get? n =
      (bound.get? n).or ((p.single.get? n).join.map .default) := by
  rw [get?_fillKeywordOnly _ n hm, get?_fillDefaults (nodup_names hp), Option.or_assoc, single, Bindings.get?_append]
  cases hpos : p.positional.get? n with
  | none => simp
  | some d =>
    have hmem : n ∈ p.names := names_positional p ▸ Bindings.isSome_get?.mp (hpos ▸ rfl)
    simp [get?_keywordOnly_of_positional hp hmem]

theorem nothing_missing_iff (function : String) :
    (p.names.filter fun n => !bound.has n && !p.positionalDefaults.has n) = [] ∧
        (fillKeywordOnly function (p.fillDefaults bound) p.keywordOnly).missing = none ↔
      ∀ n, (n, none) ∈ p.single → n ∈ bound.names := by
  have hnames := nodup_names hp
  have hpositional : (p.names.filter fun n => !bound.has n && !p.positionalDefaults.has n) = [] ↔
      ∀ n, (n, none) ∈ p.positional → n ∈ bound.names := by
    rw [List.filter_eq_nil_iff]
    constructor
    · intro h n hn
      have hget : p.positional.get? n = some none := Bindings.get?_of_mem (names_positional p ▸ hnames) hn
      have hmem : n ∈ p.names := names_positional p ▸ List.mem_map_of_mem (f := (·.1)) hn
      have hno : p.positionalDefaults.has n = false := by simp [Bindings.has, get?_positionalDefaults p hnames, hget]
      have hfilled := h n hmem
      rw [← Bindings.has_iff]
      simpa [hno] using hfilled
    · intro h n hn
      obtain ⟨d, hd⟩ := Option.isSome_iff_exists.mp (Bindings.isSome_get?.mpr (names_positional p ▸ hn))
      cases d with
      | none => simp [Bindings.has_iff.mpr (h n (Bindings.mem_of_get? hd))]
      | some e => simp [Bindings.has, get?_positionalDefaults p hnames, hd]
  have hkeyword : (fillKeywordOnly function (p.fillDefaults bound) p.keywordOnly).missing = none ↔
      ∀ n, (n, none) ∈ p.keywordOnly → n ∈ bound.names := by
    obtain ⟨-, hnodup, hdisjoint⟩ := List.nodup_append.mp (nodup_names_append hp)
    rw [missing_fillKeywordOnly]
    refine forall_congr' fun n => ?_
    rw [Bindings.get?_eq_some_iff_mem hnodup]
    refine imp_congr_right fun hn => ?_
    -- the defaults of positional parameters do not fill it
    have hnone : p.positional.get? n = none := by
      rw [Bindings.get?_eq_none_iff, names_positional]
      exact fun hm => hdisjoint n hm n (List.mem_map_of_mem (f := (·.1)) hn) rfl
    rw [← Bindings.isSome_get?, ← Bindings.isSome_get?, get?_fillDefaults hnames, hnone]
    simp
  rw [hpositional, hkeyword]
  simp only [single, List.mem_append, or_imp, forall_and]

end

def byPosition (p : Params ε) (args : List α) : Bindings (Filling α ε) := p.names.zip (args.map .given)

def byName (p : Params ε) (keywords : Bindings α) : Bindings (Filling α ε) :=
  (keywords.filter fun k => k.1 ∈ p.single.names).map fun k => (k.1, .given k.2)

def byArguments (p : Params ε) (args : List α) (keywords : Bindings α) : Bindings (Filling α ε) :=
  (p.byPosition args).update (p.byName keywords)

def Takes (p : Params ε) (bound : Bindings (Filling α ε)) (name : String) : Prop :=
  name ∉ bound.names ∧ (name ∈ p.single.names ∨ p.keywordRest.isSome = true)

theorem names_byPosition : (p.byPosition args).names = p.names.take args.length := by
  rw [byPosition, Bindings.names_zip, List.length_map]

theorem nodup_byPosition (hp : p.names.Nodup) : (p.byPosition args).names.Nodup :=
  names_byPosition ▸ hp.sublist (List.take_sublist _ _)

theorem ofPairs_byPosition (hp : p.names.Nodup) :
    Bindings.ofPairs (p.names.zip (args.map .given)) = p.byPosition args :=
  Bindings.ofPairs_of_nodup (nodup_byPosition hp)

theorem nodup_byName (hk : keywords.names.Nodup) : (p.byName keywords).names.Nodup := by
  have hnames : (p.byName keywords).names = Bindings.names (keywords.filter fun k => k.1 ∈ p.single.names) := by
    simp [byName, Bindings.names, Function.comp_def]
  exact hnames ▸ Bindings.nodup_names_filter hk

theorem get?_byPosition_eq_some (hp : p.names.Nodup) {n : String} {f : Filling α ε} :
    (p.byPosition args).get? n = some f ↔
      ∃ (i : Nat) (a : α), p.names[i]? = some n ∧ args[i]? = some a ∧ f = .given a := by
  rw [Bindings.get?_eq_some_iff_mem (nodup_byPosition hp), List.mem_iff_getElem?]
  simp only [byPosition, List.getElem?_zip_eq_some, List.getElem?_map, Option.map_eq_some_iff]
  grind

theorem get?_byName (n : String) :
    (p.byName keywords).get? n = if n ∈ p.single.names then (keywords.get? n).map .given else none := by
  rw [byName, Bindings.get?_mapValues, Bindings.get?_filter fun m => decide (m ∈ p.single.names)]
  by_cases hn : n ∈ p.single.names <;> simp [hn]

theorem mem_names_byArguments (hk : keywords.names.Nodup) {n : String} :
    n ∈ (p.byArguments args keywords).names ↔
      n ∈ p.names.take args.length ∨ n ∈ p.single.names ∧ n ∈ keywords.names := by
  rw [← not_iff_not, ← Bindings.get?_eq_none_iff, byArguments, Bindings.get?_update (nodup_byName hk),
    get?_byName, Option.or_eq_none_iff, @Bindings.get?_eq_none_iff _ _ (p.byPosition args), names_byPosition]
  split
  · next hs => simp [hs, Bindings.get?_eq_none_iff, and_comm]
  · next hs => simp [hs]

theorem isTaken_iff {name : String} :
    (p.names.contains name || p.keywordOnly.any (·.1 == name)) = true ↔ name ∈ p.single.names := by
  rw [mem_names_single]
  simp [Bindings.names]

theorem fillKeyword_error (function : String) {s : Bindings (Filling α ε) × Bindings α} {k : String × α}
    (h : ¬ p.Takes s.1 k.1) : ∃ e, p.fillKeyword function s k = .error e := by
  unfold fillKeyword
  dsimp only
  split
  · exact ⟨_, rfl⟩
  · next hb =>
    have hnew : k.1 ∉ s.1.names := mt Bindings.has_iff.mpr hb
    have hsingle : k.1 ∉ p.single.names := fun hs => h ⟨hnew, .inl hs⟩
    have hrest : ¬ p.keywordRest.isSome = true := fun hr => h ⟨hnew, .inr hr⟩
    rw [if_neg (mt isTaken_iff.mp hsingle), if_neg hrest]
    exact ⟨_, rfl⟩

theorem fillKeyword_ok (function : String) {s : Bindings (Filling α ε) × Bindings α} {k : String × α}
    (h : p.Takes s.1 k.1) : p.fillKeyword function s k =
      .ok (if k.1 ∈ p.single.names then (s.1.set k.1 (.given k.2), s.2) else (s.1, s.2.set k.1 k.2)) := by
  unfold fillKeyword
  dsimp only
  rw [if_neg (mt Bindings.has_iff.mp h.1)]
  by_cases hs : k.1 ∈ p.single.names
  · rw [if_pos (isTaken_iff.mpr hs), if_pos hs]
  · rw [if_neg (mt isTaken_iff.mp hs), if_pos (h.2.resolve_left hs), if_neg hs]

theorem foldlM_fillKeyword_error (function : String) (extra : Bindings α) (h : ∃ k ∈ keywords, ¬ p.Takes bound k.1) :
    ∃ e, keywords.foldlM (p.fillKeyword function) (bound, extra) = .error e := by
  induction keywords generalizing bound extra with
  | nil => simp at h
  | cons k keywords ih =>
    rw [List.foldlM_cons]
    by_cases hk : p.Takes bound k.1
    · rw [fillKeyword_ok function hk]
      obtain ⟨k', hmem, hk'⟩ := h
      have hlater : k' ∈ keywords := (List.mem_cons.mp hmem).resolve_left fun he => hk' (he ▸ hk)
      split
      · exact ih _ ⟨k', hlater, fun ht => hk' ⟨fun hm => ht.1 (Bindings.mem_names_set.mpr (.inl hm)), ht.2⟩⟩
      · exact ih _ ⟨k', hlater, hk'⟩
    · obtain ⟨e, he⟩ := fillKeyword_error (s := (bound, extra)) function hk
      exact ⟨e, by rw [he]; rfl⟩

theorem foldlM_fillKeyword_ok (function : String) (extra : Bindings α) (hk : keywords.names.Nodup)
    (h : ∀ k ∈ keywords, p.Takes bound k.1) :
    keywords.foldlM (p.fillKeyword function) (bound, extra) =
      .ok (bound.update (p.byName keywords), extra.update (keywords.filter fun k => k.1 ∉ p.single.names)) := by
  induction keywords generalizing bound extra with
  | nil => rfl
  | cons k keywords ih =>
    obtain ⟨hnew, hk⟩ := List.nodup_cons.mp hk
    obtain ⟨ht, hts⟩ := List.forall_mem_cons.mp h
    rw [List.foldlM_cons, fillKeyword_ok function ht]
    by_cases hs : k.1 ∈ p.single.names
    · have hts' : ∀ k' ∈ keywords, p.Takes (bound.set k.1 (.given k.2)) k'.1 := by
        intro k' hm
        refine ⟨fun hb => ?_, (hts k' hm).2⟩
        rcases Bindings.mem_names_set.mp hb with hb | he
        · exact (hts k' hm).1 hb
        · exact hnew (List.mem_map.mpr ⟨k', hm, he⟩)
      simpa [byName, Bindings.update, hs, bind, Except.bind] using ih extra hk hts'
    · simpa [byName, Bindings.update, hs, bind, Except.bind] using ih (extra.set k.1 k.2) hk hts

theorem fill_of_overflows (function : String) (h : p.Overflows args) :
    p.fill function args keywords = .error (.surplus function p.names.length args.length) := by
  unfold fill
  rw [if_pos (by simpa [Overflows] using h)]
  rfl

section

variable (hp : p.names.Nodup)

include hp

theorem fill_of_untaken (function : String) (h : ∃ k ∈ keywords, ¬ p.Takes (p.byPosition args) k.1) :
    ∃ e, p.fill function args keywords = .error e := by
  by_cases hs : p.Overflows args
  · exact ⟨_, fill_of_overflows function hs⟩
  · obtain ⟨e, he⟩ := foldlM_fillKeyword_error function [] h
    refine ⟨e, ?_⟩
    unfold fill
    rw [if_neg (by simpa [Overflows] using hs)]
    simp only [ofPairs_byPosition hp, he, bind, Except.bind]

theorem fill_of_takes (function : String) (hs : ¬ p.Overflows args) (hk : keywords.names.Nodup)
    (ht : ∀ k ∈ keywords, p.Takes (p.byPosition args) k.1) :
    p.fill function args keywords =
      let bound := p.byArguments args keywords
      let missing := p.names.filter fun n => !bound.has n && !p.positionalDefaults.has n
      let filled := fillKeywordOnly function (p.fillDefaults bound) p.keywordOnly
      if missing ≠ [] then .error (.missing function missing)
      else if filled.missing = none then
        .ok ⟨p.fillRests (args.drop p.names.length) (keywords.filter fun k => k.1 ∉ p.single.names) filled.entries, none⟩
      else .ok filled := by
  have hextra : Bindings.update [] (keywords.filter fun k => k.1 ∉ p.single.names) =
      keywords.filter fun k => k.1 ∉ p.single.names := Bindings.ofPairs_of_nodup (Bindings.nodup_names_filter hk)
  have hfold := foldlM_fillKeyword_ok function [] hk ht
  rw [hextra, ← byArguments] at hfold
  unfold fill
  rw [if_neg (by simpa [Overflows] using hs)]
  simp only [ofPairs_byPosition hp, hfold, bind, Except.bind]
  generalize p.byArguments args keywords = bound
  generalize p.names.filter (fun n => !bound.has n && !p.positionalDefaults.has n) = missing
  generalize fillKeywordOnly function (p.fillDefaults bound) p.keywordOnly = filled
  obtain ⟨entries, cause⟩ := filled
  cases missing with
  | nil => cases cause <;> rfl
  | cons n missing => rfl

end

theorem takes_of_fits (h : ¬ p.Misfit p.single.names args keywords) :
    ∀ k ∈ keywords, p.Takes (p.byPosition args) k.1 := by
  intro k hk
  refine ⟨fun hfilled => ?_, ?_⟩
  · rw [names_byPosition] at hfilled
    exact h (.repeated hk (mem_names_single.mpr (.inl (List.mem_of_mem_take hfilled))) hfilled)
  · by_contra hno
    obtain ⟨hunreached, hrest⟩ := not_or.mp hno
    exact h (.unexpected hk hunreached (Option.not_isSome_iff_eq_none.mp hrest))

section

variable (function : String) (hp : p.single.names.Nodup) (hk : keywords.names.Nodup)

include hk

theorem names_of_fits (h : ¬ p.Misfit p.single.names args keywords) :
    ∀ n, (n, none) ∈ p.single → n ∈ (p.byArguments args keywords).names := by
  intro n hn
  rw [mem_names_byArguments hk]
  by_contra hno
  obtain ⟨hposition, hkeyword⟩ := not_or.mp hno
  exact h (.unfilled hn hposition hkeyword)

include hp

theorem refuses_of_misfit (h : p.Misfit p.single.names args keywords) : ∃ e, p.Refuses function args keywords e := by
  have hnames := nodup_names hp
  by_cases hs : p.Overflows args
  · exact ⟨_, .inl (fill_of_overflows function hs)⟩
  by_cases ht : ∀ k ∈ keywords, p.Takes (p.byPosition args) k.1
  -- every keyword is taken, so that only a parameter without a default can be left
  · have hunfilled : ¬ ∀ n, (n, none) ∈ p.single → n ∈ (p.byArguments args keywords).names := by
      intro hall
      cases h with
      | surplus overflows => exact hs overflows
      | repeated given _ filled => exact (ht _ given).1 (names_byPosition ▸ filled)
      | unexpected given unreached noRest =>
        rcases (ht _ given).2 with hr | hr
        · exact unreached hr
        · simp [noRest] at hr
      | unfilled required noPosition noKeyword =>
        rcases (mem_names_byArguments hk).mp (hall _ required) with hm | hm
        · exact noPosition hm
        · exact noKeyword hm
    rw [← nothing_missing_iff hp function, not_and'] at hunfilled
    have hfill := fill_of_takes hnames function hs hk ht
    dsimp only at hfill
    generalize fillKeywordOnly function (p.fillDefaults (p.byArguments args keywords)) p.keywordOnly = filled
      at hfill hunfilled
    obtain ⟨entries, missing⟩ := filled
    split at hfill
    · exact ⟨_, .inl hfill⟩
    · next hnone =>
      cases missing with
      | none => exact absurd (hunfilled rfl) hnone
      | some e => exact ⟨e, .inr ⟨entries, hfill⟩⟩
  · obtain ⟨e, he⟩ := fill_of_untaken hnames function (by simpa using ht)
    exact ⟨e, .inl he⟩

theorem fill_of_fits (h : ¬ p.Misfit p.single.names args keywords) :
    p.fill function args keywords = .ok ⟨p.fillRests (args.drop p.names.length)
      (keywords.filter fun k => k.1 ∉ p.single.names)
      (fillKeywordOnly function (p.fillDefaults (p.byArguments args keywords)) p.keywordOnly).entries, none⟩ := by
  obtain ⟨hpositional, hkeyword⟩ := (nothing_missing_iff hp function).mpr (names_of_fits hk h)
  rw [fill_of_takes (nodup_names hp) function (fun hs => h (.surplus hs)) hk (takes_of_fits h)]
  dsimp only
  rw [if_neg (not_not.mpr hpositional), if_pos hkeyword]

end

theorem get?_fillRests (surplus : List α) (extra : Bindings α) (n : String) :
    (p.fillRests surplus extra bound).get? n =
      if p.keywordRest = some n then some (.keywordRest extra)
      else if p.rest = some n then some (.rest surplus) else bound.get? n := by
  unfold fillRests
  cases p.rest <;> cases p.keywordRest <;> simp [Bindings.get?_set]

theorem nodup_fillRests (surplus : List α) (extra : Bindings α) (h : bound.names.Nodup) :
    (p.fillRests surplus extra bound).names.Nodup := by
  unfold fillRests
  cases p.rest with
  | none =>
    cases p.keywordRest with
    | none => exact h
    | some k => exact Bindings.nodup_names_set h
  | some r =>
    cases p.keywordRest with
    | none => exact Bindings.nodup_names_set h
    | some k => exact Bindings.nodup_names_set (Bindings.nodup_names_set h)

theorem get?_byArguments_eq_some (hp : p.names.Nodup) (hk : keywords.names.Nodup)
    (h : ¬ p.Misfit p.single.names args keywords) {n : String} {f : Filling α ε} :
    (p.byArguments args keywords).get? n = some f ↔
      (∃ (i : Nat) (a : α), p.names[i]? = some n ∧ args[i]? = some a ∧ f = .given a) ∨
        ∃ a, (n, a) ∈ keywords ∧ n ∈ p.single.names ∧ f = .given a := by
  rw [byArguments, Bindings.get?_update (nodup_byName hk), get?_byName, ← get?_byPosition_eq_some hp]
  by_cases hm : n ∈ p.single.names ∧ n ∈ keywords.names
  · obtain ⟨k, hmem, rfl⟩ := List.mem_map.mp hm.2
    have hget : keywords.get? k.1 = some k.2 := Bindings.get?_of_mem hk hmem
    -- the keyword would repeat an argument
    have hno : (p.byPosition args).get? k.1 = none := by
      rw [Bindings.get?_eq_none_iff, names_byPosition]
      exact fun hfilled => h (.repeated hmem hm.1 hfilled)
    simp only [hm.1, hget, hno, if_true, Option.map_some, Option.some_or, Option.some.injEq, true_and, reduceCtorEq,
      false_or]
    constructor
    · rintro rfl
      exact ⟨k.2, hmem, rfl⟩
    · rintro ⟨a, ha, rfl⟩
      rw [Bindings.get?_of_mem hk ha] at hget
      rw [Option.some.inj hget]
  · have hno : ¬ ∃ a, (n, a) ∈ keywords ∧ n ∈ p.single.names ∧ f = .given a := by
      rintro ⟨a, ha, hs, -⟩
      exact hm ⟨hs, List.mem_map_of_mem (f := (·.1)) ha⟩
    have hnone : n ∈ p.single.names → keywords.get? n = none := fun hs =>
      Bindings.get?_eq_none_iff.mpr fun hn => hm ⟨hs, hn⟩
    rw [or_iff_left hno]
    split
    · next hs => rw [hnone hs, Option.map_none, Option.none_or]
    · rw [Option.none_or]

section

variable (function : String) (hp : p.declared.Nodup) (hk : keywords.names.Nodup)

include hp

theorem nodup_single : p.single.names.Nodup := by
  rw [declared, List.append_assoc] at hp
  exact (List.nodup_append.mp hp).1

theorem rest_apart {n : String} :
    (p.rest = some n → n ∉ p.single.names ∧ p.keywordRest ≠ some n) ∧ (p.keywordRest = some n → n ∉ p.single.names) := by
  simp only [declared, List.nodup_append, List.mem_append, Option.mem_toList] at hp
  grind

include hk

theorem fill_fills (h : ¬ p.Misfit p.single.names args keywords) :
    ∃ entries, p.fill function args keywords = .ok ⟨entries, none⟩ ∧ entries.names.Nodup ∧
      ∀ n f, entries.get? n = some f ↔ p.Fills p.single.names args keywords n f := by
  have hsingle := nodup_single hp
  have hnames := nodup_names hsingle
  have hmissing := ((nothing_missing_iff hsingle function).mpr (names_of_fits hk h)).2
  refine ⟨_, fill_of_fits function hsingle hk h, ?_, fun n f => ?_⟩
  · apply nodup_fillRests
    apply nodup_fillKeywordOnly
    apply nodup_fillDefaults
    exact Bindings.nodup_names_update _ (nodup_byPosition hnames)
  obtain ⟨hrest, hkeywordRest⟩ := rest_apart hp (n := n)
  have hapart : n ∈ p.single.names → p.keywordRest ≠ some n ∧ p.rest ≠ some n := fun hn =>
    ⟨fun he => hkeywordRest he hn, fun he => (hrest he).1 hn⟩
  rw [get?_fillRests, get?_defaults hsingle n hmissing]
  constructor
  · intro hf
    split at hf
    · next hr => exact Option.some.inj hf ▸ .keywordRest hr
    split at hf
    · next hr => exact Option.some.inj hf ▸ .rest hr
    rcases Option.or_eq_some_iff.mp hf with hf | ⟨hno, hf⟩
    · rcases (get?_byArguments_eq_some hnames hk h).mp hf with ⟨i, a, hn, ha, rfl⟩ | ⟨a, ha, hn, rfl⟩
      · exact .position hn ha
      · exact .keyword ha hn
    · obtain ⟨e, he, rfl⟩ := Option.map_eq_some_iff.mp hf
      rw [Bindings.get?_eq_none_iff, mem_names_byArguments hk, not_or] at hno
      exact .default (Bindings.mem_of_get? (Option.join_eq_some_iff.mp he)) hno.1 hno.2
  · intro hf
    cases hf with
    | position name given =>
      have hn := hapart (mem_names_single.mpr (.inl (List.mem_of_getElem? name)))
      rw [if_neg hn.1, if_neg hn.2, (get?_byArguments_eq_some hnames hk h).mpr (.inl ⟨_, _, name, given, rfl⟩)]
      rfl
    | keyword given reached =>
      have hn := hapart reached
      rw [if_neg hn.1, if_neg hn.2, (get?_byArguments_eq_some hnames hk h).mpr (.inr ⟨_, given, reached, rfl⟩)]
      rfl
    | default own noPosition noKeyword =>
      have hn := hapart (List.mem_map_of_mem (f := (·.1)) own)
      have hno : (p.byArguments args keywords).get? n = none := by
        rw [Bindings.get?_eq_none_iff, mem_names_byArguments hk, not_or]
        exact ⟨noPosition, noKeyword⟩
      rw [if_neg hn.1, if_neg hn.2, hno, Bindings.get?_of_mem hsingle own]
      rfl
    | rest name => rw [if_neg (hrest name).2, if_pos name]
    | keywordRest name => rw [if_pos name]

omit hp hk in
theorem mem_declared_of_fills {n : String} {f : Filling α ε} (h : p.Fills p.single.names args keywords n f) :
    n ∈ p.declared := by
  have hsingle : n ∈ p.single.names → n ∈ p.declared := fun hn => by simp [declared, hn]
  cases h with
  | position name given => exact hsingle (mem_names_single.mpr (.inl (List.mem_of_getElem? name)))
  | keyword given reached => exact hsingle reached
  | default own _ _ => exact hsingle (List.mem_map_of_mem (f := (·.1)) own)
  | rest name => simp [declared, name]
  | keywordRest name => simp [declared, name]

theorem exists_fills (h : ¬ p.Misfit p.single.names args keywords) {n : String} (hn : n ∈ p.declared) :
    ∃ f, p.Fills p.single.names args keywords n f := by
  simp only [declared, List.mem_append, Option.mem_toList] at hn
  rcases hn with (hn | hn) | hn
  · by_cases hgiven : n ∈ (p.byArguments args keywords).names
    · obtain ⟨f, hf⟩ := Option.isSome_iff_exists.mp (Bindings.isSome_get?.mpr hgiven)
      rcases (get?_byArguments_eq_some (nodup_names (nodup_single hp)) hk h).mp hf with
        ⟨i, a, hname, ha, rfl⟩ | ⟨a, ha, hname, rfl⟩
      · exact ⟨_, .position hname ha⟩
      · exact ⟨_, .keyword ha hname⟩
    · obtain ⟨⟨_, d⟩, hmem, rfl⟩ := List.mem_map.mp hn
      cases d with
      | none => exact absurd (names_of_fits hk h _ hmem) hgiven
      | some e =>
        rw [mem_names_byArguments hk, not_or] at hgiven
        exact ⟨_, .default hmem hgiven.1 hgiven.2⟩
  · exact ⟨_, .rest hn⟩
  · exact ⟨_, .keywordRest hn⟩

omit hp hk in
variable {function} in
theorem not_refuses {entries : Bindings (Filling α ε)} (h : p.fill function args keywords = .ok ⟨entries, none⟩) :
    ¬ ∃ e, p.Refuses function args keywords e := by
  rintro ⟨e, he | ⟨other, he⟩⟩
  · rw [h] at he
    cases he
  · rw [h] at he
    cases he

theorem refuses_iff : (∃ e, p.Refuses function args keywords e) ↔ p.Misfit p.single.names args keywords := by
  refine ⟨fun he => ?_, refuses_of_misfit function (nodup_single hp) hk⟩
  by_contra h
  exact not_refuses (fill_of_fits function (nodup_single hp) hk h) he

variable {function} in
theorem fills_of_fill {entries : Bindings (Filling α ε)} (h : p.fill function args keywords = .ok ⟨entries, none⟩) :
    ¬ p.Misfit p.single.names args keywords ∧
      ∀ n f, entries.get? n = some f ↔ p.Fills p.single.names args keywords n f := by
  have hfits : ¬ p.Misfit p.single.names args keywords := mt (refuses_iff function hp hk).mpr (not_refuses h)
  obtain ⟨found, hfill, -, hfills⟩ := fill_fills function hp hk hfits
  rw [h] at hfill
  cases hfill
  exact ⟨hfits, hfills⟩

end

end Params

theorem Packing.run_values {α ε : Type} (k : Packing Id α ε) (entries : Bindings (Filling α ε)) :
    (k.values entries).run = entries.map fun b => (b.1, (k.value b.2).run) := by
  induction entries with
  | nil => rfl
  | cons b entries ih => exact congrArg ((b.1, (k.value b.2).run) :: ·) ih

namespace Params

/-- Binding neither loses nor repeats an argument: a call is refused exactly where its arguments do not fit, and
otherwise every declared name is bound once, to the value of what fills it. -/
theorem fill_places_every_argument {α ε : Type} (p : Params ε) (function : String) (args : List α)
    (keywords : Bindings α) (distinct : p.declared.Nodup) (unique : keywords.names.Nodup) :
    ((∃ e, p.Refuses function args keywords e) ↔ p.Misfit p.single.names args keywords) ∧
    (¬ p.Misfit p.single.names args keywords →
      ∃ entries, p.fill function args keywords = .ok ⟨entries, none⟩ ∧ entries.names.Perm p.declared ∧
        (∀ n f, entries.get? n = some f ↔ p.Fills p.single.names args keywords n f) ∧
        ∀ k : Packing Id α ε, (k.values entries).run = entries.map fun b => (b.1, (k.value b.2).run)) := by
  refine ⟨refuses_iff function distinct unique, fun h => ?_⟩
  obtain ⟨entries, hfill, hnodup, hfills⟩ := fill_fills function distinct unique h
  refine ⟨entries, hfill, (List.perm_ext_iff_of_nodup hnodup distinct).mpr fun n => ?_, hfills,
    fun k => k.run_values entries⟩
  rw [← Bindings.isSome_get?, Option.isSome_iff_exists]
  constructor
  · rintro ⟨f, hf⟩
    exact mem_declared_of_fills ((hfills n f).mp hf)
  · intro hn
    obtain ⟨f, hf⟩ := exists_fills distinct unique h hn
    exact ⟨f, (hfills n f).mpr hf⟩

def everyKind : Params Nat where
  positionalOnly := ["a"]
  ordinary := ["b", "c"]
  defaults := [10, 11]
  rest := some "rest"
  keywordOnly := [("k", none), ("l", some 12)]
  keywordRest := some "others"

theorem everyKind_places_every_argument :
    (∃ e, everyKind.Refuses "f" [1, 2, 3] [("k", 6), ("c", 7)] e) ∧
    ∃ entries, everyKind.fill "f" [1] [("z", 5), ("k", 6), ("c", 7)] = .ok ⟨entries, none⟩ ∧
      entries.names.Perm everyKind.declared ∧ entries.get? "b" = some (.default 10) ∧
      entries.get? "c" = some (.given 7) ∧ entries.get? "others" = some (.keywordRest [("z", 5)]) := by
  have hrefused := fill_places_every_argument everyKind "f" [1, 2, 3] [("k", 6), ("c", 7)] (by decide) (by decide)
  have hplaced := fill_places_every_argument everyKind "f" [1] [("z", 5), ("k", 6), ("c", 7)] (by decide) (by decide)
  have hfound : everyKind.fill "f" [1] [("z", 5), ("k", 6), ("c", 7)] = .ok ⟨[("a", .given 1), ("k", .given 6),
      ("c", .given 7), ("b", .default 10), ("l", .default 12), ("rest", .rest []),
      ("others", .keywordRest [("z", 5)])], none⟩ := rfl
  obtain ⟨entries, hfill, hnames, hfills, -⟩ := hplaced.2 (mt hplaced.1.mpr (not_refuses hfound))
  have hothers : everyKind.Fills everyKind.single.names [1] [("z", 5), ("k", 6), ("c", 7)] "others"
      (.keywordRest [("z", 5)]) := .keywordRest rfl
  refine ⟨hrefused.1.mpr (.repeated (k := ("c", 7)) (by decide) (by decide) (by decide)), entries, hfill, hnames, ?_⟩
  rw [hfills, hfills, hfills]
  exact ⟨.default (by decide) (by decide) (by decide), .keyword (by decide) (by decide), hothers⟩

end Params

end Casewise
