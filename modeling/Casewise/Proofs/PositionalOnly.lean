import Casewise.Proofs.FilledParameters

namespace Casewise.Params

variable {α ε : Type} {p : Params ε} {args : List α} {keywords : Bindings α} {reach reach' : List String}

def named (p : Params ε) : List String := p.ordinary ++ Bindings.names p.keywordOnly

structure Conforms (p : Params ε) (function : String) (args : List α) (keywords : Bindings α) : Prop where
  refuses : (∃ e, p.Refuses function args keywords e) ↔ p.Misfit p.named args keywords
  fills : ∀ entries, p.fill function args keywords = .ok ⟨entries, none⟩ →
    ∀ n f, entries.get? n = some f ↔ p.Fills p.named args keywords n f

section

variable (h : ∀ k ∈ keywords, k.1 ∈ reach ↔ k.1 ∈ reach')

include h

theorem reached_congr {n : String} (hn : n ∈ reach' ∧ n ∈ keywords.names) : n ∈ reach ∧ n ∈ keywords.names := by
  obtain ⟨hr, hk⟩ := hn
  obtain ⟨k, hmem, rfl⟩ := List.mem_map.mp hk
  exact ⟨(h k hmem).mpr hr, hk⟩

theorem Misfit.congr (hm : p.Misfit reach args keywords) : p.Misfit reach' args keywords := by
  cases hm with
  | surplus overflows => exact .surplus overflows
  | repeated given reached filled => exact .repeated given ((h _ given).mp reached) filled
  | unexpected given unreached noRest => exact .unexpected given (mt (h _ given).mpr unreached) noRest
  | unfilled required noPosition noKeyword => exact .unfilled required noPosition (mt (reached_congr h) noKeyword)

theorem Fills.congr {n : String} {f : Filling α ε} (hf : p.Fills reach args keywords n f) :
    p.Fills reach' args keywords n f := by
  cases hf with
  | position name given => exact .position name given
  | keyword given reached => exact .keyword given ((h _ given).mp reached)
  | default own noPosition noKeyword => exact .default own noPosition (mt (reached_congr h) noKeyword)
  | rest name => exact .rest name
  | keywordRest name =>
    have hfilter : (keywords.filter fun k => k.1 ∉ reach) = keywords.filter fun k => k.1 ∉ reach' :=
      List.filter_congr fun k hk => by simp [h k hk]
    exact hfilter ▸ .keywordRest name

end

theorem mem_single_of_positionalOnly {n : String} (hn : n ∈ p.positionalOnly) : n ∈ p.single.names :=
  mem_names_single.mpr (.inl (List.mem_append_left _ hn))

theorem mem_named_iff {n : String} (hn : n ∉ p.positionalOnly) : n ∈ p.single.names ↔ n ∈ p.named := by
  simp [mem_names_single, names, named, hn]

theorem not_mem_named (hp : p.declared.Nodup) {n : String} (hn : n ∈ p.positionalOnly) : n ∉ p.named := by
  have happend := nodup_names_append (nodup_single hp)
  rw [names, List.append_assoc] at happend
  exact fun hm => (List.nodup_append.mp happend).2.2 n hn n hm rfl

theorem mem_take_of_position {i : Nat} {n : String} {a : α} (name : p.names[i]? = some n)
    (given : args[i]? = some a) : n ∈ p.names.take args.length := by
  have hi : i < args.length := (List.getElem?_eq_some_iff.mp given).1
  exact List.mem_of_getElem? ((List.getElem?_take_of_lt hi).trans name)

section

variable (function : String) (hp : p.declared.Nodup) (hk : keywords.names.Nodup)

include hp hk

theorem conforms_of_no_keyword (h : ∀ k ∈ keywords, k.1 ∉ p.positionalOnly) : p.Conforms function args keywords := by
  have hreach : ∀ k ∈ keywords, k.1 ∈ p.single.names ↔ k.1 ∈ p.named := fun k hmem => mem_named_iff (h k hmem)
  have hreach' : ∀ k ∈ keywords, k.1 ∈ p.named ↔ k.1 ∈ p.single.names := fun k hmem => (hreach k hmem).symm
  refine ⟨(refuses_iff function hp hk).trans ⟨.congr hreach, .congr hreach'⟩, fun entries hfill n f => ?_⟩
  exact ((fills_of_fill hp hk hfill).2 n f).trans ⟨.congr hreach, .congr hreach'⟩

theorem not_conforms (h : ¬ p.Misfit p.single.names args keywords) {k : String × α} (hmem : k ∈ keywords)
    (hpositional : k.1 ∈ p.positionalOnly) : ¬ p.Conforms function args keywords := by
  intro hc
  obtain ⟨entries, hfill, -, hfills⟩ := fill_fills function hp hk h
  have hreached := mem_single_of_positionalOnly hpositional
  -- the keyword fills the parameter, which only a position may
  have hgiven := (hc.fills entries hfill _ _).mp ((hfills _ _).mpr (.keyword hmem hreached))
  cases hgiven with
  | position name given => exact h (.repeated hmem hreached (mem_take_of_position name given))
  | keyword _ reached => exact not_mem_named hp hpositional reached

theorem conforms_iff :
    p.Conforms function args keywords ↔
      (∀ k ∈ keywords, k.1 ∉ p.positionalOnly) ∨
        p.Misfit p.single.names args keywords ∧ p.Misfit p.named args keywords := by
  constructor
  · intro hc
    refine or_iff_not_imp_left.mpr fun hno => ?_
    obtain ⟨k, hmem, hpositional⟩ : ∃ k ∈ keywords, k.1 ∈ p.positionalOnly := by simpa using hno
    have h : p.Misfit p.single.names args keywords := by
      by_contra h
      exact not_conforms function hp hk h hmem hpositional hc
    exact ⟨h, hc.refuses.mp ((refuses_iff function hp hk).mpr h)⟩
  · rintro (hno | ⟨hs, hn⟩)
    · exact conforms_of_no_keyword function hp hk hno
    · have hrefused := (refuses_iff function hp hk).mpr hs
      exact ⟨iff_of_true hrefused hn, fun entries hfill => absurd hrefused (not_refuses hfill)⟩

end

/-- A keyword reaches a positional-only parameter as it does any other: it is refused where the parameter is filled by
position, and else fills it, also where the function takes other keywords. So a call is bound as it should be exactly
if no keyword has the name of a positional-only parameter, or the call is to be refused and is. -/
theorem positional_only_reached_by_keyword (p : Params ε) (function : String) (args : List α)
    (keywords : Bindings α) (distinct : p.declared.Nodup) (unique : keywords.names.Nodup) :
    (p.Conforms function args keywords ↔
      (∀ k ∈ keywords, k.1 ∉ p.positionalOnly) ∨
        p.Misfit p.single.names args keywords ∧ p.Misfit p.named args keywords) ∧
    ∀ k ∈ keywords, k.1 ∈ p.positionalOnly →
      (k.1 ∈ p.names.take args.length → ∃ e, p.Refuses function args keywords e) ∧
      ∀ entries, p.fill function args keywords = .ok ⟨entries, none⟩ →
        entries.get? k.1 = some (.given k.2) ∧
        ∀ r extra, entries.get? r = some (.keywordRest extra) → k ∉ extra := by
  refine ⟨conforms_iff function distinct unique, fun k hmem hk => ?_⟩
  have hreached := mem_single_of_positionalOnly hk
  refine ⟨fun hfilled => (refuses_iff function distinct unique).mpr (.repeated hmem hreached hfilled), ?_⟩
  intro entries hfill
  obtain ⟨-, hfills⟩ := fills_of_fill distinct unique hfill
  refine ⟨(hfills _ _).mpr (.keyword hmem hreached), fun r extra hr => ?_⟩
  cases (hfills r _).mp hr with
  | keywordRest name => simp [hreached]

def guarded : Params Nat := { positionalOnly := ["a"], keywordRest := some "others" }

theorem guarded_misbound :
    ¬ guarded.Conforms "f" [1] [("a", 2)] ∧ guarded.fill "f" [1] [("a", 2)] = .error (.repeated "f" "a") ∧
      ¬ guarded.Misfit (α := Nat) guarded.named [1] [("a", 2)] ∧
      guarded.Fills (α := Nat) guarded.named [1] [("a", 2)] "others" (.keywordRest [("a", 2)]) := by
  have hfits : ¬ guarded.Misfit (α := Nat) guarded.named [1] [("a", 2)] := by
    intro hm
    cases hm with
    | surplus overflows => exact absurd overflows.1 (by decide)
    | repeated _ reached _ => simp [guarded, named, Bindings.names] at reached
    | unexpected _ _ noRest => cases noRest
    | unfilled required noPosition _ =>
      simp only [guarded, single, positional, names] at required noPosition
      simp_all
  have h := positional_only_reached_by_keyword guarded "f" [1] [("a", 2)] (by decide) (by decide)
  refine ⟨fun hc => ?_, rfl, hfits, .keywordRest rfl⟩
  rcases h.1.mp hc with hno | ⟨-, hm⟩
  · exact absurd hno (by decide)
  · exact hfits hm

end Casewise.Params
