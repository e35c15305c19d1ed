import Casewise.Proofs.Installing
import Casewise.Proofs.MockScopes
import Casewise.Symbolic.Session
import Mathlib.Data.List.Induction

/-!
A mock for an imported name in both modes. The analysis asks for the mock of the name, then for the one of the path
that it is imported from; a running program is given one mock after another under all its names.
-/

namespace Casewise.Concrete

def imported (p : Program) : List (String × String) := (imports p).flatMap Import.bindings

def addName (found : Bindings (List String)) (b : String × String) : Bindings (List String) :=
  found.set b.2 ((found.get? b.2).getD [] ++ [b.1])

def grouped (bs : List (String × String)) : Bindings (List String) := bs.foldl addName []

theorem grouped_append (bs : List (String × String)) (b : String × String) :
    grouped (bs ++ [b]) = addName (grouped bs) b := by
  simp [grouped]

theorem nodup_names_grouped (bs : List (String × String)) : (grouped bs).names.Nodup := by
  induction bs using List.reverseRecOn with
  | nil => exact List.nodup_nil
  | append_singleton bs b ih =>
    rw [grouped_append]
    exact Bindings.nodup_names_set ih

theorem mem_getD_grouped {bs : List (String × String)} {short path : String} :
    short ∈ ((grouped bs).get? path).getD [] ↔ (short, path) ∈ bs := by
  induction bs using List.reverseRecOn with
  | nil => simp [grouped]
  | append_singleton bs b ih =>
    rw [grouped_append, addName, List.mem_append, ← ih]
    by_cases hb : b.2 = path
    · rw [hb, Bindings.get?_set_self]
      simp [Prod.ext_iff, hb]
    · rw [Bindings.get?_set_of_ne hb]
      simp [Prod.ext_iff, Ne.symm hb]

theorem exists_mem_aliases {p : Program} {short path : String} :
    (∃ names, (path, names) ∈ aliases p ∧ short ∈ names) ↔ (short, path) ∈ imported p := by
  have he : aliases p = grouped (imported p) := rfl
  rw [he, ← mem_getD_grouped]
  constructor
  · rintro ⟨names, hn, hs⟩
    rwa [Bindings.get?_of_mem (nodup_names_grouped _) hn]
  · intro hs
    cases hg : (grouped (imported p)).get? path with
    | none => simp [hg] at hs
    | some names => exact ⟨names, Bindings.mem_of_get? hg, by simpa [hg] using hs⟩

theorem mem_targets {p : Program} {name target : String} : target ∈ targets (aliases p) name ↔
    target = name ∨ ∃ short path, (short, path) ∈ imported p ∧
      ((name = path ∧ target = short) ∨ ∃ rest, name = path ++ "." ++ rest ∧ target = short ++ "." ++ rest) := by
  rw [targets, mem_distinctTexts, List.mem_cons, List.mem_flatMap]
  refine or_congr_right ⟨?_, ?_⟩
  · rintro ⟨⟨path, names⟩, hmem, ht⟩
    dsimp only at ht
    split at ht
    · next hname =>
      obtain ⟨short, hs, rfl⟩ := List.mem_map.mp ht
      refine ⟨short, path, exists_mem_aliases.mp ⟨names, hmem, hs⟩, ?_⟩
      rw [Bool.or_eq_true, decide_eq_true_eq] at hname
      rcases hname with rfl | hu
      · exact .inl ⟨rfl, by rw [Dotted.after_self, String.append_empty]⟩
      · obtain ⟨rest, rfl⟩ := Dotted.isUnder_iff.mp hu
        exact .inr ⟨rest, rfl, by rw [Dotted.after_path_dot, String.append_assoc]⟩
    · simp at ht
  · rintro ⟨short, path, hi, h⟩
    obtain ⟨names, hmem, hs⟩ := exists_mem_aliases.mpr hi
    refine ⟨(path, names), hmem, ?_⟩
    dsimp only
    rcases h with ⟨rfl, rfl⟩ | ⟨rest, rfl, rfl⟩
    · rw [if_pos (by simp), Dotted.after_self]
      exact List.mem_map.mpr ⟨_, hs, String.append_empty⟩
    · rw [if_pos (by simp [Dotted.isUnder_iff]), Dotted.after_path_dot]
      exact List.mem_map.mpr ⟨_, hs, (String.append_assoc ..).symm⟩

theorem forIn_targets (called : List String) (m : Mock.Payload) (ts : List String) :
    (forIn ts PUnit.unit fun target _ => do
      install .globals target (← substitute m (called.contains target))
      pure (ForInStep.yield PUnit.unit)) = installAll called (ts.map fun t => (t, m)) := by
  induction ts with
  | nil => rfl
  | cons t ts ih => simp [installAll, installOne, ← ih]

def installations (p : Program) (payloads : List Mock.Payload) : List (String × Mock.Payload) :=
  payloads.flatMap fun m => (targets (aliases p) m.name).map fun t => (t, m)

theorem mem_installations {p : Program} {payloads : List Mock.Payload} {x : String × Mock.Payload} :
    x ∈ installations p payloads ↔ x.2 ∈ payloads ∧ x.1 ∈ targets (aliases p) x.2.name := by
  simp only [installations, List.mem_flatMap, List.mem_map, Prod.ext_iff]
  constructor
  · rintro ⟨m, hm, t, ht, rfl, rfl⟩
    exact ⟨hm, ht⟩
  · rintro ⟨hm, ht⟩
    exact ⟨x.2, hm, x.1, ht, rfl, rfl⟩

theorem installMocks_eq (p : Program) (payloads : List Mock.Payload) :
    installMocks p payloads = installAll p.calledNames (installations p payloads) := by
  unfold installMocks
  induction payloads with
  | nil => rfl
  | cons m payloads ih =>
    rw [installations, List.flatMap_cons, installAll_append, ← installations, ← ih, ← forIn_targets]
    simp

structure ImportedOnce (p : Program) (name path : String) : Prop where
  once : (imported p).filter (fun b => decide (b.1 = name)) = [(name, path)]
  words : ∀ b ∈ imported p, Dotted.IsWord b.1

namespace ImportedOnce

variable {p : Program} {name path : String}

theorem mem_iff (h : ImportedOnce p name path) {other : String} : (name, other) ∈ imported p ↔ other = path := by
  have hm : (name, other) ∈ (imported p).filter (fun b => decide (b.1 = name)) ↔ (name, other) ∈ imported p := by
    simp
  rw [← hm, h.once]
  simp

theorem isWord (h : ImportedOnce p name path) : Dotted.IsWord name := h.words _ (h.mem_iff.mpr rfl)

theorem mem_targets_iff (h : ImportedOnce p name path) {mock : String} :
    name ∈ targets (aliases p) mock ↔ mock = name ∨ mock = path := by
  rw [mem_targets]
  constructor
  · rintro (he | ⟨short, other, hi, ⟨rfl, rfl⟩ | ⟨rest, -, he⟩⟩)
    · exact .inl he.symm
    · exact .inr (h.mem_iff.mp hi)
    · exact absurd (Dotted.isUnder_iff.mpr ⟨rest, he⟩) (Dotted.not_isUnder_of_isWord h.isWord)
  · rintro (rfl | rfl)
    · exact .inl rfl
    · exact .inr ⟨name, mock, h.mem_iff.mpr rfl, .inl ⟨rfl, rfl⟩⟩

theorem isUnder_of_mem_targets (h : ImportedOnce p name path) {mock target : String}
    (ht : target ∈ targets (aliases p) mock) (hu : Dotted.isUnder name target = true) :
    target = mock ∨ Dotted.isUnder path mock = true := by
  rcases mem_targets.mp ht with he | ⟨short, other, hi, ⟨-, rfl⟩ | ⟨rest, rfl, rfl⟩⟩
  · exact .inl he
  · exact absurd hu (Dotted.not_isUnder_of_isWord (h.words _ hi))
  · obtain ⟨part, parts, hp⟩ := (Dotted.isUnder_word_iff h.isWord).mp hu
    rw [Dotted.parts_word_dot (h.words _ hi)] at hp
    obtain rfl : short = name := (List.cons.inj hp).1
    obtain rfl : other = path := h.mem_iff.mp hi
    exact .inr (Dotted.isUnder_iff.mpr ⟨rest, rfl⟩)

theorem installations_split (h : ImportedOnce p name path) {m : Mock.Payload} {after : List Mock.Payload}
    (hm : m.name = name ∨ m.name = path) (hafter : ∀ q ∈ after, ¬ (q.name = name ∨ q.name = path))
    (before : List Mock.Payload) : ∃ xs ys, installations p (before ++ m :: after) = xs ++ (name, m) :: ys ∧
      (∀ y ∈ ys, y.1 ≠ name) ∧ ∀ y ∈ ys, Dotted.isUnder name y.1 = true →
        ∃ q ∈ after, Dotted.isUnder name q.name = true ∨ Dotted.isUnder path q.name = true := by
  obtain ⟨ts, us, hsplit⟩ := List.append_of_mem (h.mem_targets_iff.mpr hm)
  have hnodup : (ts ++ [name] ++ us).Nodup := by
    rw [List.append_assoc]
    exact hsplit ▸ nodup_distinctTexts _
  have hown : m.name ∈ ts ++ [name] := by
    obtain ⟨rest, hrest⟩ : ∃ rest, targets (aliases p) m.name = m.name :: rest := ⟨_, rfl⟩
    rw [hsplit] at hrest
    cases ts with
    | nil => simp [(List.cons.inj hrest).1]
    | cons t ts => simp [(List.cons.inj hrest).1]
  have hlater : ∀ u ∈ us, u ≠ name ∧ u ≠ m.name := by
    intro u hu
    have hdisjoint := List.disjoint_of_nodup_append hnodup
    exact ⟨fun he => hdisjoint (by simp) (he ▸ hu), fun he => hdisjoint hown (he ▸ hu)⟩
  refine ⟨installations p before ++ ts.map fun t => (t, m), (us.map fun t => (t, m)) ++ installations p after, ?_, ?_, ?_⟩
  · simp [installations, hsplit]
  · intro y hy
    rcases List.mem_append.mp hy with hy | hy
    · obtain ⟨u, hu, rfl⟩ := List.mem_map.mp hy
      exact (hlater u hu).1
    · obtain ⟨hq, ht⟩ := mem_installations.mp hy
      rintro rfl
      exact hafter _ hq (h.mem_targets_iff.mp ht)
  · intro y hy hunder
    rcases List.mem_append.mp hy with hy | hy
    · obtain ⟨u, hu, rfl⟩ := List.mem_map.mp hy
      have hut : u ∈ targets (aliases p) m.name := by simp [hsplit, hu]
      rcases h.isUnder_of_mem_targets hut hunder with he | hpath
      · exact absurd he (hlater u hu).2
      · rcases hm with he | he
        · exact absurd hpath (he ▸ Dotted.not_isUnder_of_isWord h.isWord)
        · exact absurd hpath (he ▸ Dotted.not_isUnder_self path)
    · obtain ⟨hq, ht⟩ := mem_installations.mp hy
      refine ⟨y.2, hq, ?_⟩
      rcases h.isUnder_of_mem_targets ht hunder with he | hpath
      · exact .inl (he ▸ hunder)
      · exact .inr hpath

end ImportedOnce

theorem exists_last {α : Type} {P : α → Prop} {as : List α} (h : ∃ a ∈ as, P a) :
    ∃ before a after, as = before ++ a :: after ∧ P a ∧ ∀ b ∈ after, ¬ P b := by
  induction as with
  | nil => simp at h
  | cons a as ih =>
    by_cases hlater : ∃ b ∈ as, P b
    · obtain ⟨before, b, after, rfl, hb, hafter⟩ := ih hlater
      exact ⟨a :: before, b, after, rfl, hb, hafter⟩
    · obtain ⟨b, hb, hp⟩ := h
      have hba : b = a := (List.mem_cons.mp hb).resolve_right fun hb => hlater ⟨b, hb, hp⟩
      exact ⟨[], a, as, rfl, hba ▸ hp, fun c hc hpc => hlater ⟨c, hc, hpc⟩⟩

theorem payload_name {m : Mock} {d : Mock.Payload} (h : m.payload = .ok d) : d.name = m.symbol := by
  have sampled : ∀ (callable : Bool) (t : Ty), Mock.sampleOr m.symbol callable t = .ok d → d.name = m.symbol := by
    intro callable t ht
    unfold Mock.sampleOr at ht
    split at ht
    · rw [← Except.ok.inj ht]
    · rw [← Except.ok.inj ht]
    · simp at ht
  unfold Mock.payload at h
  split at h
  · rw [← Except.ok.inj h]
  · exact sampled _ _ h
  · exact sampled _ _ h

structure PayloadsOf (chain : MockChain) (payloads : List Mock.Payload) : Prop where
  distinct : ∀ table ∈ chain, table.names.Nodup
  given : chain.mocks.mapM Mock.payload = .ok payloads

namespace PayloadsOf

variable {chain : MockChain} {payloads : List Mock.Payload}

theorem names (h : PayloadsOf chain payloads) : payloads.map Mock.Payload.name = chain.entries.names := by
  rw [← chain.symbols_mocks]
  have hp := mapM_eq_ok.mp h.given
  clear h
  generalize chain.mocks = mocks at hp
  induction hp with
  | nil => rfl
  | cons hm _ ih => rw [List.map_cons, List.map_cons, payload_name hm, ih]

theorem exists_iff (h : PayloadsOf chain payloads) {name : String} :
    (∃ m ∈ payloads, m.name = name) ↔ chain.lookup? name ≠ none := by
  rw [← List.mem_map, h.names, ← MockChain.get?_entries h.distinct, Ne, Bindings.get?_eq_none_iff, not_not]

theorem lookup?_eq_none (h : PayloadsOf chain payloads) {name : String} (hn : ∀ m ∈ payloads, m.name ≠ name) :
    chain.lookup? name = none := by
  by_contra hsome
  obtain ⟨m, hm, he⟩ := h.exists_iff.mpr hsome
  exact hn m hm he

theorem payload_eq (h : PayloadsOf chain payloads) {m : Mock.Payload} (hm : m ∈ payloads) {v : CaseValue}
    (hv : chain.lookup? m.name = some v) : Mock.payload ⟨m.name, v⟩ = .ok m := by
  obtain ⟨x, hx, hxm⟩ := forall₂_partner (mapM_eq_ok.mp h.given) hm
  obtain ⟨e, he, rfl⟩ := List.mem_map.mp hx
  have hname : m.name = e.1 := payload_name hxm
  have hget : chain.lookup? e.1 = some e.2 := by
    rw [← MockChain.get?_entries h.distinct]
    exact Bindings.get?_of_mem chain.nodup_names_entries he
  have hve : v = e.2 := Option.some.inj (hv.symm.trans (hname ▸ hget))
  rw [hve, hname]
  exact hxm

end PayloadsOf

/-- How an imported name stands after the installation, where the analysis takes a value for it. -/
inductive Outcome (chain : MockChain) (p : Program) (payloads : List Mock.Payload) (name path : String) (v : CaseValue)
    (s s' : Process) : Prop
  | same {m : Mock.Payload} {w : Value} (source : Mock.payload ⟨m.name, v⟩ = .ok m)
      (named : m.name = name ∨ m.name = path) (bound : s'.globals.get? name = some w)
      (stands : StandsFor s'.store m (p.calledNames.contains name) w)
  /-- The mock gives nothing, and a later one under the name has put a namespace in its place. -/
  | emptied {m q : Mock.Payload} {w : Value} (source : Mock.payload ⟨m.name, v⟩ = .ok m)
      (named : m.name = name ∨ m.name = path) (nothing : GivesNothing m (p.calledNames.contains name))
      (later : [m, q].Sublist payloads) (under : Dotted.isUnder name q.name = true ∨ Dotted.isUnder path q.name = true)
      (bound : s'.globals.get? name = some w) (space : IsSpace s'.store w)
  /-- The name and its path have a mock each, and the later one, for the path, has taken the place of the other. -/
  | overridden {m : Mock.Payload} {w : Value} (both : [name, path].Sublist (payloads.map Mock.Payload.name))
      (listed : m ∈ payloads) (named : m.name = path) (bound : s'.globals.get? name = some w)
      (stands : StandsFor s'.store m (p.calledNames.contains name) w ∨
        (GivesNothing m (p.calledNames.contains name) ∧ IsSpace s'.store w))
  /-- Neither has a mock: the value is a field of the mock for the root of the path, and the name is left as it is. -/
  | field {root part : String} {rest : List String} {base : CaseValue}
      (unmocked : ∀ m ∈ payloads, m.name ≠ name ∧ m.name ≠ path) (parts : Dotted.parts path = root :: part :: rest)
      (mocked : chain.lookup? root = some base) (source : Mock.FieldAt base (part :: rest) v)
      (kept : something? (s.globals.get? name) ≠ none → s'.globals.get? name = s.globals.get? name)

variable {cfg : Symbolic.Setting} {p : Program} {payloads : List Mock.Payload} {name path : String} {v : CaseValue}

theorem source_of_last (h : ImportedOnce p name path) (hp : PayloadsOf cfg.mocks payloads)
    (found : Symbolic.mocked? cfg name path = some v) {m : Mock.Payload} {before after : List Mock.Payload}
    (hsplit : payloads = before ++ m :: after) (hm : m.name = name ∨ m.name = path)
    (hafter : ∀ q ∈ after, ¬ (q.name = name ∨ q.name = path)) :
    Mock.payload ⟨m.name, v⟩ = .ok m ∨
      (m.name = path ∧ [name, path].Sublist (payloads.map Mock.Payload.name)) := by
  have hmem : m ∈ payloads := by simp [hsplit]
  rw [Symbolic.mocked?, MockChain.resolve?_of_isWord h.isWord] at found
  cases hname : cfg.mocks.lookup? name with
  | some u =>
    obtain rfl : u = v := by simpa [hname] using found
    by_cases he : m.name = name
    · exact .inl (hp.payload_eq hmem (he ▸ hname))
    · have hpath := hm.resolve_left he
      obtain ⟨q, hq, hqn⟩ := hp.exists_iff.mpr (by simp [hname] : cfg.mocks.lookup? name ≠ none)
      have hbefore : q ∈ before := by
        rw [hsplit, List.mem_append, List.mem_cons] at hq
        rcases hq with hq | rfl | hq
        · exact hq
        · exact absurd hqn he
        · exact absurd (.inl hqn) (hafter q hq)
      have hpair : [q, m].Sublist payloads := by
        rw [hsplit]
        exact (List.singleton_sublist.mpr hbefore).append (List.singleton_sublist.mpr (by simp))
      refine .inr ⟨hpath, ?_⟩
      simpa only [List.map_cons, List.map_nil, hqn, hpath] using hpair.map Mock.Payload.name
  | none =>
    have hne : m.name ≠ name := fun he => hp.exists_iff.mp ⟨m, hmem, he⟩ hname
    have hpath := hm.resolve_left hne
    obtain ⟨u, hu⟩ := Option.ne_none_iff_exists'.mp (hp.exists_iff.mp ⟨m, hmem, hpath⟩)
    obtain rfl : u = v := by simpa [hname, MockChain.resolve?, hu] using found
    exact .inl (hp.payload_eq hmem (hpath ▸ hu))

theorem fieldAt_of_unmocked (h : ImportedOnce p name path) (found : Symbolic.mocked? cfg name path = some v)
    (hname : cfg.mocks.lookup? name = none) (hpath : cfg.mocks.lookup? path = none) :
    ∃ root part rest base, Dotted.parts path = root :: part :: rest ∧ cfg.mocks.lookup? root = some base ∧
      Mock.FieldAt base (part :: rest) v := by
  have hresolve : cfg.mocks.resolve? path = some v := by
    simpa [Symbolic.mocked?, MockChain.resolve?_of_isWord h.isWord, hname] using found
  by_cases hw : Dotted.IsWord path
  · simp [MockChain.resolve?_of_isWord hw, hpath] at hresolve
  · obtain ⟨root, part, rest, hp⟩ := Dotted.exists_parts_of_dotted hw
    rcases (MockChain.resolve?_of_parts hp v).mp hresolve with hlookup | ⟨-, base, hbase, hfield⟩
    · simp [hpath] at hlookup
    · exact ⟨root, part, rest, base, hp, hbase, hfield⟩

theorem outcome_of_ok (h : ImportedOnce p name path) (hp : PayloadsOf cfg.mocks payloads)
    (found : Symbolic.mocked? cfg name path = some v) {s s' : Process}
    (hrun : (installAll p.calledNames (installations p payloads)).run s = (.ok (), s')) :
    Outcome cfg.mocks p payloads name path v s s' := by
  by_cases hany : ∃ m ∈ payloads, m.name = name ∨ m.name = path
  · obtain ⟨before, m, after, hsplit, hm, hafter⟩ := exists_last hany
    obtain ⟨xs, ys, hinst, hne, hunder⟩ := h.installations_split hm hafter before
    rw [hsplit, hinst] at hrun
    obtain ⟨w, hbound, hw⟩ := installAll_binds hrun h.isWord hne
    rcases source_of_last h hp found hsplit hm hafter with hsource | ⟨hpath, hboth⟩
    · rcases hw with hstands | ⟨hnothing, ⟨y, hy, hyu⟩, hspace⟩
      · exact .same hsource hm hbound hstands
      · obtain ⟨q, hq, hqu⟩ := hunder y hy hyu
        have hlater : [m, q].Sublist payloads := by
          rw [hsplit]
          exact ((List.singleton_sublist.mpr hq).cons_cons m).trans (List.sublist_append_right before _)
        exact .emptied hsource hm hnothing hlater hqu hbound hspace
    · exact .overridden hboth (by simp [hsplit]) hpath hbound (hw.imp_right fun hlost => ⟨hlost.1, hlost.2.2⟩)
  · have hnone : ∀ m ∈ payloads, ¬ (m.name = name ∨ m.name = path) := fun m hm he => hany ⟨m, hm, he⟩
    have hname := hp.lookup?_eq_none fun m hm he => hnone m hm (.inl he)
    have hpath := hp.lookup?_eq_none fun m hm he => hnone m hm (.inr he)
    obtain ⟨root, part, rest, base, hparts, hbase, hfield⟩ := fieldAt_of_unmocked h found hname hpath
    refine .field (fun m hm => not_or.mp (hnone m hm)) hparts hbase hfield fun hthere => ?_
    refine installAll_keeps hrun h.isWord (fun x hx => ?_) fun _ => hthere
    obtain ⟨hm, ht⟩ := mem_installations.mp hx
    rintro rfl
    exact hnone _ hm (h.mem_targets_iff.mp ht)

/-- An imported name stands for the mock that the analysis takes, unless the mocks for it overlap in one of three ways
or a mock for a member of a value that takes no members stops the program. -/
theorem imported_name_stands_for_its_mock (h : ImportedOnce p name path) (hp : PayloadsOf cfg.mocks payloads)
    (found : Symbolic.mocked? cfg name path = some v) (s : Process) :
    (∃ s', (installMocks p payloads).run s = (.ok (), s') ∧ Outcome cfg.mocks p payloads name path v s s') ∨
    ∃ e s' before x after s₁, (installMocks p payloads).run s = (.error e, s') ∧
      installations p payloads = before ++ x :: after ∧ (installAll p.calledNames before).run s = (.ok (), s₁) ∧
      Blocked s₁ x.1 x.2 (p.calledNames.contains x.1) := by
  rw [installMocks_eq]
  rcases hrun : (installAll p.calledNames (installations p payloads)).run s with ⟨e | _, s'⟩
  · obtain ⟨before, x, after, s₁, hsplit, hbefore, hblocked⟩ := blocked_of_error hrun
    exact .inr ⟨e, s', before, x, after, s₁, rfl, hsplit, hbefore, hblocked⟩
  · exact .inl ⟨s', rfl, outcome_of_ok h hp found hrun⟩

def fetchProgram : Program where
  body := [.importing default (.members "api" 0 [⟨"fetch", some "f"⟩]),
    .expr default (.call default (.name default "f") [] [])]

def fetchSetting (table : Bindings CaseValue) : Symbolic.Setting where
  module := ⟨"a.py", [], [], [], [("f", "api.fetch")], []⟩
  mocks := [table]

def fetchTable : Bindings CaseValue :=
  [("api.base", .concrete (.text "http")), ("api.fetch", .symbolic (.function [] (Ty.int 7))),
    ("api.fetch.timeout", .concrete (.int 3))]

def fetchPayloads : List Mock.Payload :=
  [⟨"api.base", .text "http", false⟩, ⟨"api.fetch", .int 7, true⟩, ⟨"api.fetch.timeout", .int 3, false⟩]

theorem fetch_stands_for_its_mock :
    ImportedOnce fetchProgram "f" "api.fetch" ∧ PayloadsOf (fetchSetting fetchTable).mocks fetchPayloads ∧
    ∃ s', (installMocks fetchProgram fetchPayloads).run {} = (.ok (), s') ∧
      Outcome [fetchTable] fetchProgram fetchPayloads "f" "api.fetch" (.symbolic (.function [] (Ty.int 7))) {} s' := by
  have once : ImportedOnce fetchProgram "f" "api.fetch" := ⟨by decide +kernel, by decide +kernel⟩
  have given : PayloadsOf (fetchSetting fetchTable).mocks fetchPayloads := ⟨by decide +kernel, rfl⟩
  have found : Symbolic.mocked? (fetchSetting fetchTable) "f" "api.fetch" =
      some (.symbolic (.function [] (Ty.int 7))) := rfl
  have ends : ((installMocks fetchProgram fetchPayloads).run {}).1.isOk = true := by decide +kernel
  refine ⟨once, given, ?_⟩
  rcases imported_name_stands_for_its_mock once given found {} with h | ⟨e, s', before, x, after, s₁, hrun, -⟩
  · exact h
  · rw [hrun] at ends
    exact absurd ends Bool.false_ne_true

-- the analysis takes the mock for the name, the program the later one for the path
example : Symbolic.mocked? (fetchSetting [("f", .concrete (.int 1)), ("api.fetch", .concrete (.int 2))]) "f"
      "api.fetch" = some (.concrete (.int 1)) := rfl

example : (((installMocks ⟨[.importing default (.members "api" 0 [⟨"fetch", some "f"⟩])], []⟩
      [⟨"f", .int 1, false⟩, ⟨"api.fetch", .int 2, false⟩]).run {}).2.globals.get? "f").bind Value.literal? =
    some "2" := by
  decide +kernel

end Casewise.Concrete
