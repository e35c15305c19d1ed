import Casewise.Proofs.Assignability
import Casewise.Proofs.MergeLaws

namespace Casewise.Ty

def isKnown (t : Ty) : Bool := !t.isUnknown

def UnknownFree (t : Ty) : Prop := t.every false isKnown = true

instance (t : Ty) : Decidable t.UnknownFree := inferInstanceAs (Decidable (_ = true))

theorem onLeaves_isKnown : OnLeaves isKnown := by
  intro t
  cases t <;> simp [isKnown, isUnknown]

theorem UnknownFree.ne {t : Ty} (h : t.UnknownFree) : t ≠ .unknown := by
  rintro rfl
  simp [UnknownFree, every, isKnown, isUnknown] at h

variable {ts : List Ty}

theorem not_mem_flat (hu : ∀ t ∈ ts, t.UnknownFree) : .unknown ∉ ts.flatMap byName :=
  fun h => UnknownFree.ne (every_flat hu _ h) rfl

theorem unknownFree_slot {F : List Ty} (s : Slot) (h : ∀ t ∈ F, t.UnknownFree) : ∀ t ∈ s.all F, t.UnknownFree := by
  intro t ht
  obtain ⟨c, hc, hct⟩ := mem_slot.mp ht
  obtain ⟨hcc, htc | rfl⟩ := Slot.child hct
  · exact every_inside (h c hc) (isFunction_container hcc) htc
  · rfl

theorem not_found_unknown (hu : ∀ t ∈ ts, t.UnknownFree) : ¬ Found (ts.flatMap parts) .unknown := by
  rw [found_unknown]
  intro h
  obtain ⟨t, ht, hm⟩ := List.mem_flatMap.mp h
  refine not_mem_flat hu (List.mem_flatMap.mpr ⟨t, ht, mem_byName.mpr (parts_subset_members t hm)⟩)

theorem assignable_union_of_container {us : List Ty} {c m : Ty} (wf : ∀ t ∈ us, t.WellFormed) (hc : c ∈ us)
    (hcc : c.isContainer = true) (hs : same c c = true) (hm : isAlternative m = true) (h : assignable m c = true) :
    assignable m (union us) = true := by
  by_cases hu : Found (us.flatMap parts) .unknown
  · rw [union_of_unknown hu]
    exact assignable_unknown m
  · have hk : Kept (us.flatMap parts) c := by
      rw [kept_other (isPrimitiveOrLiteral_container hcc)]
      exact ⟨c, List.mem_flatMap.mpr ⟨c, hc, by simp [parts_container hcc]⟩, hs⟩
    obtain ⟨u, hu, hcu⟩ := (found_parts_union wf hu c).mpr hk
    exact assignable_of_mem hm (wellFormed_union wf) (parts_subset_members _ hu) (assignable_of_same_right hcu h)

theorem assignable_literal_of_primitive {s : Scalar} {e : Ty} (h : assignable (.primitive s.primitive) e = true) :
    assignable (.literal s) e = true := by
  simp only [assignable, List.any_eq_true, Bool.or_eq_true] at h ⊢
  obtain ⟨m, hm, hu | hs⟩ := h
  · obtain rfl := isUnknown_iff.mp hu
    exact ⟨_, hm, by simp [isUnknown]⟩
  · obtain rfl := same_primitive_left.mp hs
    exact ⟨_, hm, by simp⟩

theorem assignable_of_union {us : List Ty} {t e : Ty} (pu : ∀ t ∈ us, t.Proper)
    (hn : ¬ Found (us.flatMap parts) .unknown) (he : e.WellFormed) (h : assignable (union us) e = true) (ht : t ∈ us) :
    assignable t e = true := by
  have wf : ∀ t ∈ us, t.WellFormed := fun t ht => (pu t ht).wellFormed
  have hpart {y : Ty} (hy : Kept (us.flatMap parts) y) : assignable y e = true := by
    obtain ⟨u, hu, hyu⟩ := (found_parts_union wf hn y).mpr hy
    exact assignable_of_same_left (same_symm hyu) ((assignable_iff_parts (wellFormed_union wf) he).mp h u hu)
  rw [assignable_iff_parts (wf t ht) he]
  intro x hx
  have hf : Found (us.flatMap parts) x :=
    found_of_mem (List.mem_flatMap.mpr ⟨t, ht, hx⟩) (same_self_parts (pu t ht).self hx)
  rcases kept_or_absorbed hf with hk | ⟨s, rfl, hk⟩
  · exact hpart hk
  · exact assignable_literal_of_primitive (hpart hk)

theorem isOptional_mergedField {F : List Ty} {key : String} (pf : ∀ t ∈ F, t.Proper) (hu : ∀ t ∈ F, t.UnknownFree)
    (h : F.any (lacks key) = true) : (mergedField merged (F.filterMap fields?) key).isOptional = true := by
  have pp := proper_slot (.present key) pf
  have hm : (merged ((Slot.present key).all F)).UnknownFree :=
    every_mergedTo onLeaves_isKnown (fun t ht => (pp t ht).wellFormed) (unknownFree_slot (.present key) hu)
  rw [mergedField_eq, if_pos h, isOptional_union_undefined, unknown_mem_parts (proper_merged pp).wellFormed]
  exact hm.ne

section

variable {F : List Ty} (pf : ∀ t ∈ F, t.Proper) (hu : ∀ t ∈ F, t.UnknownFree)
  (hs : ∀ (s : Slot), ∀ t ∈ s.all F, assignable t (merged (s.all F)) = true)

include pf hu hs

theorem exists_assignable_container {m : Ty} (hm : m ∈ F) (hc : m.isContainer = true) :
    ∃ c ∈ mergedContainers merged F, assignable m c = true := by
  cases m with
  | object fs =>
    have ho : F.any Feature.object.holds = true := List.any_eq_true.mpr ⟨_, hm, rfl⟩
    refine ⟨_, mem_containers.mpr (.inl ⟨ho, rfl⟩), ?_⟩
    simp only [mergedObject, assignable, members, List.any_cons, List.any_nil, Bool.or_false, List.all_eq_true]
    refine List.forall_mem_map.mpr fun key _ => ?_
    rw [fieldAssignable_eq]
    cases hk : Bindings.get? key fs with
    | none => exact isOptional_mergedField pf hu (List.any_eq_true.mpr ⟨_, hm, by simp [lacks, hk]⟩)
    | some t =>
      have ht : t ∈ (Slot.field key).all F := mem_slot.mpr ⟨_, hm, by simp [Slot.get?, hk]⟩
      exact assignable_of_same_right (same_symm (same_mergedField pf key)) (hs (.field key) t ht)
  | array e =>
    have ha : F.any Feature.array.holds = true := List.any_eq_true.mpr ⟨_, hm, rfl⟩
    refine ⟨_, mem_containers.mpr (.inr (.inl ⟨ha, rfl⟩)), ?_⟩
    have he : e ∈ Slot.element.all F := mem_slot.mpr ⟨_, hm, rfl⟩
    simpa [assignable, members] using hs .element e he
  | tuple es =>
    have ht : F.any (Feature.tuple es.length).holds = true := List.any_eq_true.mpr ⟨_, hm, by simp [Feature.holds]⟩
    refine ⟨_, mem_containers.mpr (.inr (.inr ⟨_, ht, rfl⟩)), ?_⟩
    simp only [assignable, members, List.any_cons, List.any_nil, Bool.or_false, eachAssignable_iff]
    refine List.forall₂_iff_get.mpr ⟨by simp, fun i hi _ => ?_⟩
    have hg : es.get ⟨i, hi⟩ ∈ (Slot.place es.length i).all F := mem_slot.mpr ⟨_, hm, by simp [Slot.get?, hi]⟩
    simpa using hs (.place es.length i) _ hg
  | _ => simp [isContainer] at hc

end

theorem assignable_merged_to_depth {n : Nat} {t : Ty} (pt : ∀ t ∈ ts, t.Proper) (hu : ∀ t ∈ ts, t.UnknownFree)
    (dt : ∀ t ∈ ts, depth t < n) (h : t ∈ ts) : assignable t (merged ts) = true := by
  induction n generalizing ts t with
  | zero => exact absurd (dt t h) (Nat.not_lt_zero _)
  | succ n ih =>
    have pf := proper_flat pt
    have hf := every_flat hu
    have hs (s : Slot) (u : Ty) (hus : u ∈ s.all (ts.flatMap byName)) :
        assignable u (merged (s.all (ts.flatMap byName))) = true :=
      ih (proper_slot s pf) (unknownFree_slot s hf)
        (depth_slot_flat s dt) hus
    have wk := fun t ht => (proper_kinds pt t ht).wellFormed
    rw [assignable_iff_parts (pt t h).wellFormed (proper_merged pt).wellFormed, merged_eq]
    intro m hm
    have hmf : m ∈ ts.flatMap byName := List.mem_flatMap.mpr ⟨t, h, mem_byName.mpr (parts_subset_members t hm)⟩
    obtain ⟨hw, rfl | hp⟩ := wellFormed_parts (pt t h).wellFormed hm
    · exact absurd hmf (not_mem_flat hu)
    cases hmc : m.isContainer with
    | true =>
      obtain ⟨c, hc, hmc⟩ := exists_assignable_container pf hf hs hmf hmc
      refine assignable_union_of_container wk (List.mem_append_right _ hc) (isContainer_mergedContainers hc) ?_ hp hmc
      exact (proper_mergedContainers pf c hc).self
    | false =>
      refine assignable_of_found wk hw hp (found_of_mem ?_ (pf m hmf).self)
      refine List.mem_flatMap.mpr ⟨m, List.mem_append_left _ (List.mem_filter.mpr ⟨hmf, by simp [hmc]⟩), ?_⟩
      simp [parts_of_alternative hp]

theorem assignable_merged {t : Ty} (pt : ∀ t ∈ ts, t.Proper) (hu : ∀ t ∈ ts, t.UnknownFree) (h : t ∈ ts) :
    assignable t (merged ts) = true :=
  assignable_merged_to_depth pt hu (fun t ht => Nat.lt_succ_of_le (depthAll_le.mp le_rfl t ht)) h

theorem assignable_of_widen {t e : Ty} (pt : t.Proper) (hu : t.UnknownFree) (he : e.WellFormed)
    (h : assignable (widen t) e = true) : assignable t e = true := by
  induction t using induct generalizing e with
  | literal s => exact assignable_literal_of_primitive h
  | oneOf ms ih =>
    have pm (m : Ty) (hm : m ∈ ms) : m.Proper := pt.child hm
    have hum (m : Ty) (hm : m ∈ ms) : m.UnknownFree := every_inside hu rfl hm
    have pw : ∀ w ∈ ms.map (prepared false), w.Proper := proper_prepared pm
    have hn : ¬ Found ((ms.map widen).flatMap parts) .unknown := not_found_unknown <|
      List.forall_mem_map.mpr fun m hm => every_widen onLeaves_isKnown (pm m hm).wellFormed (.inr (hum m hm))
    rw [widen, widenAll_eq_map] at h
    rw [assignable_oneOf_iff pt.wellFormed he]
    intro m hm
    exact ih m hm (pm m hm) (hum m hm) he (assignable_of_union pw hn he h (List.mem_map_of_mem hm))
  | object fs ih =>
    rw [widen, widenFields_eq_map] at h
    simp only [assignable, List.any_eq_true] at h ⊢
    obtain ⟨m, hm, h⟩ := h
    refine ⟨m, hm, ?_⟩
    cases m with
    | object gs =>
      simp only [List.all_eq_true] at h ⊢
      intro g hg
      have hf := h g hg
      rw [fieldAssignable_eq, Bindings.get?_mapValues] at hf
      rw [fieldAssignable_eq]
      cases hk : Bindings.get? g.1 fs with
      | none => simpa [hk] using hf
      | some t =>
        have ht := Bindings.mem_of_get? hk
        have hc : t ∈ children (.object fs) := List.mem_map.mpr ⟨_, ht, rfl⟩
        have hgw : g.2.WellFormed := (wellFormed_object.mp (every_members he hm)).2 g hg
        exact ih _ ht (pt.child hc) (every_inside hu rfl hc) hgw (by simpa [hk] using hf)
    | _ => exact h
  | array a ih =>
    have hc : a ∈ children (.array a) := by simp [children]
    simp only [widen, assignable, List.any_eq_true] at h ⊢
    obtain ⟨m, hm, h⟩ := h
    refine ⟨m, hm, ?_⟩
    cases m with
    | array b => exact ih (pt.child hc) (every_inside hu rfl hc) (wellFormed_array.mp (every_members he hm)) h
    | _ => exact h
  | tuple as ih =>
    rw [widen, widenAll_eq_map] at h
    simp only [assignable, List.any_eq_true] at h ⊢
    obtain ⟨m, hm, h⟩ := h
    refine ⟨m, hm, ?_⟩
    have ha {a b : Ty} (ha : a ∈ as) (hb : b.WellFormed) (hw : assignable (widen a) b = true) : assignable a b = true :=
      ih a ha (pt.child ha) (every_inside hu rfl ha) hb hw
    cases m with
    | tuple bs =>
      have hw := wellFormed_tuple.mp (every_members he hm)
      rw [eachAssignable_iff, List.forall₂_map_left_iff] at h
      rw [eachAssignable_iff]
      have hb := forall₂_swap h (S := fun b a => a ∈ as ∧ assignable (widen a) b = true) fun a ha b hab => ⟨ha, hab⟩
      refine forall₂_swap hb fun b hb a hab => ?_
      exact ha hab.1 (hw b hb) hab.2
    | array b =>
      have hw := wellFormed_array.mp (every_members he hm)
      rw [allAssignable_iff, List.forall_mem_map] at h
      rw [allAssignable_iff]
      exact fun a hm => ha hm hw (h a hm)
    | _ => exact h
  | _ => exact h

theorem assignable_mergedAs {exact : Bool} {t : Ty} (pt : ∀ t ∈ ts, t.Proper) (hu : ∀ t ∈ ts, t.UnknownFree)
    (h : t ∈ ts) : assignable t (mergedAs exact ts) = true := by
  have hup : ∀ t ∈ ts.map (prepared exact), t.UnknownFree :=
    List.forall_mem_map.mpr fun t ht => every_prepared onLeaves_isKnown (pt t ht).wellFormed (hu t ht)
  have ha := assignable_merged (proper_prepared pt) hup (List.mem_map_of_mem h)
  cases exact with
  | true => exact ha
  | false =>
    exact assignable_of_widen (pt t h) (hu t h) (wellFormed_mergedAs fun t ht => (pt t ht).wellFormed) ha

/-- There is a merged type, and every contribution fits it, exactly where the contributions can be merged, as they can
be when every literal has a text. -/
theorem merge_covers_contributions (exact : Bool) (ts : List Ty) (wf : ∀ t ∈ ts, t.WellFormed)
    (nan : ∀ t ∈ ts, t.NanFree) (known : ∀ t ∈ ts, t.UnknownFree) :
    ((∃ m, merge? exact ts = some m ∧ ∀ t ∈ ts, assignable t m = true) ↔
      ∀ t ∈ ts, (prepared exact t).Mergeable) ∧
    ((∀ t ∈ ts, t.Printable) → ∃ m, merge? exact ts = some m ∧ ∀ t ∈ ts, assignable t m = true) := by
  have pt : ∀ t ∈ ts, t.Proper := fun t ht => ⟨wf t ht, nan t ht⟩
  have hiff : (∃ m, merge? exact ts = some m ∧ ∀ t ∈ ts, assignable t m = true) ↔
      ∀ t ∈ ts, (prepared exact t).Mergeable := by
    rw [merge?_eq_ite wf]
    constructor
    · rintro ⟨m, hm, _⟩
      by_contra hn
      simp [hn] at hm
    · intro h
      exact ⟨_, if_pos h, fun t ht => assignable_mergedAs pt known ht⟩
  refine ⟨hiff, fun hp => hiff.mpr fun t ht => ?_⟩
  exact mergeable_of_printable (every_prepared onLeaves_hasText (wf t ht) (hp t ht))

theorem merge_covers_contributions_of_objects :
    ∃ m, merge? false [.object [("x", int 1)], .object [("y", text "a")], .oneOf [int 2, text "b"]] = some m ∧
      ∀ t ∈ [Ty.object [("x", int 1)], .object [("y", text "a")], .oneOf [int 2, text "b"]],
        assignable t m = true := by
  have h := merge_covers_contributions false [.object [("x", int 1)], .object [("y", text "a")],
    .oneOf [int 2, text "b"]] (by decide) (by decide) (by decide)
  exact h.2 (by decide +kernel)

end Casewise.Ty
