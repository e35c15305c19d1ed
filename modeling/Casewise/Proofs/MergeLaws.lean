import Casewise.Proofs.MergedContainers

/-!
The laws of the merge: it does not depend on the order of its types, and types may be merged in groups first. Both
come from one step lemma. A merge is determined by the loose alternatives that it keeps, by which containers there
are, and by what is merged at each place inside them.
-/

namespace Casewise.Ty

section

variable {F G : List Ty}

def loose (flat : List Ty) : List Ty := (flat.filter fun t => !t.isContainer).flatMap parts

theorem like_loose (h : Like F G) : Like (loose F) (loose G) := by
  refine Like.flatMap (h.filter fun x y hxy => ?_) fun _ _ => like_parts
  rw [isContainer_of_same hxy]

theorem kept_append_containers {A C : List Ty} (hC : ∀ c ∈ C, c.isContainer = true) (x : Ty) :
    Kept (A ++ C) x ↔ Kept A x ∨ Found C x := by
  have hn {y : Ty} (hy : isPrimitiveOrLiteral y = true) : ¬ Found C y := by
    rintro ⟨c, hc, hyc⟩
    rw [isPrimitiveOrLiteral_of_same hyc, isPrimitiveOrLiteral_container (hC c hc)] at hy
    simp at hy
  have hp (q : Primitive) : Kept (A ++ C) (.primitive q) ↔ Kept A (.primitive q) := by
    have h₁ : ¬ Found C (.primitive q) := hn rfl
    have h₂ (b : Bool) : ¬ Found C (bool b) := hn rfl
    simp only [kept_primitive, found_append, h₁, h₂, or_false]
  cases x with
  | primitive q => rw [hp, or_iff_left (hn rfl)]
  | literal s => rw [kept_literal, kept_literal, hp, found_append, or_iff_left (hn rfl), or_iff_left (hn rfl)]
  | _ => rw [kept_other rfl, kept_other rfl, found_append]

theorem parts_container {c : Ty} (h : c.isContainer = true) : parts c = [c] := by
  cases c <;> simp_all [isContainer, parts, members]

theorem flatMap_parts_containers {C : List Ty} (hC : ∀ c ∈ C, c.isContainer = true) : C.flatMap parts = C := by
  rw [List.flatMap_congr fun c hc => parts_container (hC c hc)]
  simp

end

variable {ts us : List Ty}

theorem kept_merged (x : Ty) :
    Kept (((ts.flatMap byName).filter (fun t => !t.isContainer) ++
      mergedContainers merged (ts.flatMap byName)).flatMap parts) x ↔
    Kept (loose (ts.flatMap byName)) x ∨ Found (mergedContainers merged (ts.flatMap byName)) x := by
  have hC : ∀ c ∈ mergedContainers merged (ts.flatMap byName), c.isContainer = true :=
    fun c => isContainer_mergedContainers
  rw [List.flatMap_append, flatMap_parts_containers hC, ← kept_append_containers hC, loose]

theorem proper_kinds (h : ∀ t ∈ ts, t.Proper) : ∀ t ∈ (ts.flatMap byName).filter (fun t => !t.isContainer) ++
    mergedContainers merged (ts.flatMap byName), t.Proper :=
  List.forall_mem_append.mpr
    ⟨fun t ht => proper_flat h t (List.mem_filter.mp ht).1, proper_mergedContainers (proper_flat h)⟩

theorem same_merged_of_kept (pt : ∀ t ∈ ts, t.Proper) (pu : ∀ t ∈ us, t.Proper)
    (hk : ∀ x, Kept (loose (ts.flatMap byName)) x ↔ Kept (loose (us.flatMap byName)) x)
    (hc : Like (mergedContainers merged (ts.flatMap byName)) (mergedContainers merged (us.flatMap byName))) :
    same (merged ts) (merged us) = true := by
  rw [merged_eq ts, merged_eq us]
  refine same_union_of_kept (fun t ht => (proper_kinds pt t ht).self) (fun u hu => (proper_kinds pu u hu).self)
    fun x => ?_
  rw [kept_merged, kept_merged, hk, hc.found]

theorem same_merged_to_depth {n : Nat} (pt : ∀ t ∈ ts, t.Proper) (pu : ∀ t ∈ us, t.Proper)
    (dt : ∀ t ∈ ts, depth t < n) (du : ∀ t ∈ us, depth t < n) (h : Like ts us) :
    same (merged ts) (merged us) = true := by
  induction n generalizing ts us with
  | zero =>
    obtain rfl := eq_nil_of_depth dt
    obtain rfl := eq_nil_of_depth du
    rfl
  | succ n ih =>
    have hflat : Like (ts.flatMap byName) (us.flatMap byName) := h.flatMap fun _ _ => like_byName
    -- what stands at a place of the containers is less deep than they are
    have hslot (s : Slot) : same (merged (s.all (ts.flatMap byName))) (merged (s.all (us.flatMap byName))) = true :=
      ih (proper_slot s (proper_flat pt)) (proper_slot s (proper_flat pu))
        (depth_slot_flat s dt) (depth_slot_flat s du) (like_slot s hflat)
    refine same_merged_of_kept pt pu (kept_congr fun x => (like_loose hflat).found)
      (like_mergedContainers (fun f => any_of_like f hflat) (fun key _ => ?_) (hslot .element)
        fun length i _ => hslot (.place length i))
    have hp := proper_merged (proper_slot (.present key) (proper_flat pt))
    have hq := proper_merged (proper_slot (.present key) (proper_flat pu))
    rw [mergedField_eq, mergedField_eq, hflat.any fun _ _ => lacks_of_same key]
    split
    · refine same_union_of_like (regular_of_proper ?_) (regular_of_proper ?_)
        (Like.append (like_single (hslot (.present key))) (like_single rfl))
      · simpa using ⟨hp, proper_undefined⟩
      · simpa using ⟨hq, proper_undefined⟩
    · exact hslot (.present key)

theorem same_merged (pt : ∀ t ∈ ts, t.Proper) (pu : ∀ t ∈ us, t.Proper) (h : Like ts us) :
    same (merged ts) (merged us) = true := by
  obtain ⟨n, dt, du⟩ := exists_depth_lt ts us
  exact same_merged_to_depth pt pu dt du h

theorem mergedContainers_append_undefined (F : List Ty) :
    mergedContainers merged (F ++ [undefined]) = mergedContainers merged F := by
  have hdrop {α : Type} {f : Ty → Option α} (hf : f undefined = none) :
      (F ++ [undefined]).filterMap f = F.filterMap f := by
    rw [List.filterMap_append, List.filterMap_cons_none hf, List.filterMap_nil, List.append_nil]
  rw [mergedContainers, mergedContainers, hdrop (f := fields?) rfl, hdrop (f := element?) rfl,
    hdrop (f := elements?) rfl]

theorem proper_append_undefined (pt : ∀ t ∈ ts, t.Proper) : ∀ t ∈ ts ++ [undefined], t.Proper :=
  List.forall_mem_append.mpr ⟨pt, by simpa using proper_undefined⟩

theorem same_union_undefined (pt : ∀ t ∈ ts, t.Proper) :
    same (union [merged ts, undefined]) (merged (ts ++ [undefined])) = true := by
  have pk := proper_append_undefined (proper_kinds pt)
  rw [merged_eq ts]
  have pr := regular_of_proper pk
  refine same_trans (same_union_union (List.forall_mem_append.mp pr).1 (List.forall_mem_append.mp pr).2) ?_
  rw [merged_eq (ts ++ [undefined]), List.flatMap_append, show [undefined].flatMap byName = [undefined] from rfl,
    mergedContainers_append_undefined, List.filter_append, show [undefined].filter (fun t => !t.isContainer) =
      [undefined] from rfl]
  refine same_union_of_like pr (fun t ht => pr t ?_) (like_of_mem_iff (fun t ht => (pr t ht).self) fun t => ?_)
  · simp only [List.mem_append] at ht ⊢
    tauto
  · simp only [List.mem_append]
    tauto

theorem mem_field {F : List Ty} {key : String} {t : Ty} : t ∈ (Slot.field key).all F ↔
    t ∈ (Slot.present key).all F ∨ (t = undefined ∧ F.any (lacks key) = true) := by
  rw [mem_slot, mem_slot, List.any_eq_true]
  constructor
  · rintro ⟨c, hc, hct⟩
    cases c with
    | object fs =>
      obtain rfl := Option.some.inj hct
      cases hk : Bindings.get? key fs with
      | none => exact .inr ⟨rfl, _, hc, by simp [lacks, hk]⟩
      | some t => exact .inl ⟨_, hc, hk⟩
    | _ => simp [Slot.get?] at hct
  · rintro (⟨c, hc, hct⟩ | ⟨rfl, c, hc, hl⟩)
    · cases c with
      | object fs =>
        have hk : Bindings.get? key fs = some t := hct
        exact ⟨_, hc, by simp [Slot.get?, hk]⟩
      | _ => simp [Slot.get?] at hct
    · cases c with
      | object fs =>
        have hk : Bindings.get? key fs = none := by simpa [lacks] using hl
        exact ⟨_, hc, by simp [Slot.get?, hk]⟩
      | _ => simp [lacks] at hl

theorem same_mergedField {F : List Ty} (pf : ∀ t ∈ F, t.Proper) (key : String) :
    same (mergedField merged (F.filterMap fields?) key) (merged ((Slot.field key).all F)) = true := by
  have pp := proper_slot (.present key) pf
  have pq := proper_slot (.field key) pf
  rw [mergedField_eq]
  split
  · next hl =>
    have pu := proper_append_undefined pp
    refine same_trans (same_union_undefined pp) (same_merged pu pq (like_of_mem_iff (fun t ht => (pu t ht).self) ?_))
    simp [mem_field, hl]
  · next hl =>
    refine same_merged pp pq (like_of_mem_iff (fun t ht => (pp t ht).self) fun t => ?_)
    simp [mem_field, hl]

section

variable {F : List Ty}

theorem slot_filter (s : Slot) : s.all (F.filter isContainer) = s.all F := by
  rw [Slot.all, List.filterMap_filter, Slot.all]
  congr 1
  funext t
  split
  · rfl
  · next h => rw [s.get?_eq_none (by simpa using h)]

theorem any_filter (f : Feature) : (F.filter isContainer).any f.holds = F.any f.holds := by
  rw [List.any_filter]
  congr 1
  funext t
  cases h : t.isContainer with
  | false => rw [f.holds_eq_false h, Bool.and_false]
  | true => rw [Bool.true_and]

def Feature.container (F : List Ty) : Feature → Ty
  | .array => .array (merged (Slot.element.all F))
  | .tuple length => .tuple ((List.range length).map fun i => merged ((Slot.place length i).all F))
  | _ => mergedObject merged (F.filterMap fields?)

theorem holds_field_mergedObject {key : String} :
    (Feature.field key).holds (mergedObject merged (F.filterMap fields?)) = true ↔
      F.any (Feature.field key).holds = true := by
  rw [any_field, mergedObject, Feature.holds, Bindings.get?_map]
  simp

theorem feature_of_mem_containers {f : Feature} {c : Ty} (hc : c ∈ mergedContainers merged F)
    (h : f.holds c = true) : F.any f.holds = true ∧ c = f.container F := by
  rcases mem_containers.mp hc with ⟨ho, rfl⟩ | ⟨ha, rfl⟩ | ⟨length, ht, rfl⟩
  · cases f with
    | object => exact ⟨ho, rfl⟩
    | field key => exact ⟨holds_field_mergedObject.mp h, rfl⟩
    | _ => simp [mergedObject, Feature.holds] at h
  · cases f with
    | array => exact ⟨ha, rfl⟩
    | _ => simp [Feature.holds] at h
  · cases f with
    | tuple length' =>
      obtain rfl : length = length' := by simpa [Feature.holds] using h
      exact ⟨ht, rfl⟩
    | _ => simp [Feature.holds] at h

theorem container_mem_of_any {f : Feature} (h : F.any f.holds = true) :
    f.container F ∈ mergedContainers merged F ∧ f.holds (f.container F) = true := by
  rw [mem_containers]
  cases f with
  | object => exact ⟨.inl ⟨h, rfl⟩, rfl⟩
  | field key =>
    have ho : F.any Feature.object.holds = true := by
      obtain ⟨c, hc, hf⟩ := List.any_eq_true.mp h
      refine List.any_eq_true.mpr ⟨c, hc, ?_⟩
      cases c with
      | object fs => rfl
      | _ => simp [Feature.holds] at hf
    exact ⟨.inl ⟨ho, rfl⟩, holds_field_mergedObject.mpr h⟩
  | array => exact ⟨.inr (.inl ⟨h, rfl⟩), rfl⟩
  | tuple length => exact ⟨.inr (.inr ⟨length, h, rfl⟩), by simp [Feature.container, Feature.holds]⟩

theorem any_mergedContainers (f : Feature) : (mergedContainers merged F).any f.holds = F.any f.holds := by
  rw [Bool.eq_iff_iff, List.any_eq_true]
  constructor
  · rintro ⟨c, hc, hf⟩
    exact (feature_of_mem_containers hc hf).1
  · exact fun h => ⟨_, container_mem_of_any h⟩

theorem Slot.kind_holds {s : Slot} {c t : Ty} (h : s.get? c = some t) : s.kind.holds c = true := by
  cases c <;> cases s <;> simp_all [get?, kind, Feature.holds]

theorem slot_eq_nil {s : Slot} (h : F.any s.kind.holds = false) : s.all F = [] := by
  refine List.eq_nil_iff_forall_not_mem.mpr fun t ht => ?_
  obtain ⟨c, hc, hct⟩ := mem_slot.mp ht
  exact List.any_eq_false.mp h c hc (Slot.kind_holds hct)

theorem mem_slot_containers {s : Slot} {v : Ty} (h : F.any s.kind.holds = true)
    (hv : s.get? (s.kind.container F) = some v) (t : Ty) : t ∈ s.all (mergedContainers merged F) ↔ t ∈ [v] := by
  rw [mem_slot, List.mem_singleton]
  constructor
  · rintro ⟨c, hc, ht⟩
    -- there is one merged container of each kind
    obtain rfl := (feature_of_mem_containers hc (Slot.kind_holds ht)).2
    exact Option.some.inj (ht.symm.trans hv)
  · rintro rfl
    exact ⟨_, (container_mem_of_any h).1, hv⟩

theorem slot_mergedContainers (pf : ∀ t ∈ F, t.Proper) {s : Slot} (hs : s.Full) :
    Like (s.all (mergedContainers merged F)) [merged (s.all F)] ∨
      Like (s.all (mergedContainers merged F)) (s.all F) := by
  have hself : ∀ t ∈ s.all (mergedContainers merged F), same t t = true :=
    fun t ht => (proper_slot s (proper_mergedContainers pf) t ht).self
  cases h : F.any s.kind.holds with
  | false =>
    rw [slot_eq_nil h, slot_eq_nil ((any_mergedContainers s.kind).trans h)]
    exact .inr (by simp [Like])
  | true =>
    cases s with
    | present key => exact hs.elim
    | field key =>
      have hget (hv : Option Ty) (hk : Bindings.get? key ((fieldKeys (F.filterMap fields?)).map fun key =>
          (key, mergedField merged (F.filterMap fields?) key)) = hv) :
          (Slot.field key).get? (mergedObject merged (F.filterMap fields?)) = some (hv.getD undefined) := by
        rw [mergedObject, Slot.get?, hk]
      by_cases hk : key ∈ fieldKeys (F.filterMap fields?)
      · have hv := hget _ ((Bindings.get?_map _ _ key).trans (if_pos hk))
        exact .inl (Like.trans (like_of_mem_iff hself (mem_slot_containers h hv))
          (like_single (same_mergedField pf key)))
      · have hv := hget _ ((Bindings.get?_map _ _ key).trans (if_neg hk))
        have hn : F.any (Feature.field key).holds = false := Bool.eq_false_iff.mpr (any_field.not.mpr hk)
        have hl : F.any (lacks key) = true := by
          obtain ⟨c, hc, ho⟩ := List.any_eq_true.mp h
          have hfc := List.any_eq_false.mp hn c hc
          refine List.any_eq_true.mpr ⟨c, hc, ?_⟩
          cases c with
          | object fs => simpa [Feature.holds, lacks] using hfc
          | _ => simp [Slot.kind, Feature.holds] at ho
        refine .inr (like_of_mem_iff hself fun t => ?_)
        rw [mem_slot_containers h hv, mem_field, slot_eq_nil (s := .present key) hn, hl]
        simp
    | element => exact .inl (like_of_mem_iff hself (mem_slot_containers h rfl))
    | place length index =>
      have hi : index < length := hs
      exact .inl (like_of_mem_iff hself (mem_slot_containers h (by simp [Slot.kind, Feature.container, Slot.get?, hi])))

end

theorem mem_parts_of_not_oneOf {m x : Ty} (h : m.isOneOf = false) : x ∈ parts m ↔ x = m ∧ m.isNever = false := by
  cases m <;> simp_all [parts, members, isOneOf, isNever]

section

variable {F : List Ty} (hF : ∀ m ∈ F, m.isOneOf = false)

include hF

theorem found_loose (x : Ty) : Found (loose F) x ↔ x.isContainer = false ∧ Found (F.flatMap parts) x := by
  simp only [loose, found_flatMap, List.mem_filter]
  constructor
  · rintro ⟨m, ⟨hm, hc⟩, y, hy, hxy⟩
    obtain ⟨rfl, _⟩ := (mem_parts_of_not_oneOf (hF m hm)).mp hy
    exact ⟨by simpa [isContainer_of_same hxy] using hc, y, hm, y, hy, hxy⟩
  · rintro ⟨hc, m, hm, y, hy, hxy⟩
    obtain ⟨rfl, _⟩ := (mem_parts_of_not_oneOf (hF m hm)).mp hy
    exact ⟨y, ⟨hm, by simpa [← isContainer_of_same hxy] using hc⟩, y, hy, hxy⟩

theorem found_containers (x : Ty) :
    Found (F.filter isContainer) x ↔ x.isContainer = true ∧ Found (F.flatMap parts) x := by
  rw [found_flatMap]
  constructor
  · rintro ⟨m, hm, hxm⟩
    obtain ⟨hm, hc⟩ := List.mem_filter.mp hm
    exact ⟨(isContainer_of_same hxm).trans hc, m, hm, m, by simp [parts_container hc], hxm⟩
  · rintro ⟨hc, m, hm, y, hy, hxy⟩
    obtain ⟨rfl, _⟩ := (mem_parts_of_not_oneOf (hF m hm)).mp hy
    exact ⟨y, List.mem_filter.mpr ⟨hm, (isContainer_of_same hxy).symm.trans hc⟩, hxy⟩

end

theorem loose_append (F G : List Ty) : loose (F ++ G) = loose F ++ loose G := by
  rw [loose, List.filter_append, List.flatMap_append, ← loose, ← loose]

theorem not_oneOf_flat (pt : ∀ t ∈ ts, t.Proper) : ∀ m ∈ ts.flatMap byName, m.isOneOf = false := by
  intro m hm
  obtain ⟨t, ht, hmt⟩ := List.mem_flatMap.mp hm
  exact isOneOf_members (pt t ht).wellFormed (mem_byName.mp hmt)

theorem merged_of_unknown (h : .unknown ∈ ts.flatMap byName) : merged ts = .unknown := by
  rw [merged_eq]
  refine union_of_unknown (found_unknown.mpr ?_)
  refine List.mem_flatMap.mpr ⟨.unknown, List.mem_append_left _ ?_, by simp [parts, members]⟩
  exact List.mem_filter.mpr ⟨h, rfl⟩

theorem not_kept_unknown (pt : ∀ t ∈ ts, t.Proper) (hu : .unknown ∉ ts.flatMap byName) :
    ¬ Found (((ts.flatMap byName).filter (fun t => !t.isContainer) ++
      mergedContainers merged (ts.flatMap byName)).flatMap parts) .unknown := by
  rw [← kept_other rfl, kept_merged, kept_other rfl, found_loose (not_oneOf_flat pt)]
  rintro (⟨_, hf⟩ | ⟨c, hc, hs⟩)
  · obtain ⟨m, hm, hx⟩ := found_flatMap.mp hf
    obtain ⟨rfl, _⟩ := (mem_parts_of_not_oneOf (not_oneOf_flat pt m hm)).mp (found_unknown.mp hx)
    exact hu hm
  · obtain rfl := same_unknown_left.mp hs
    simpa [isContainer] using isContainer_mergedContainers hc

theorem found_parts_merged (pt : ∀ t ∈ ts, t.Proper) (hu : .unknown ∉ ts.flatMap byName) (x : Ty) :
    Found (parts (merged ts)) x ↔
      Kept (loose (ts.flatMap byName)) x ∨ Found (mergedContainers merged (ts.flatMap byName)) x := by
  rw [merged_eq, found_parts_union (fun t ht => (proper_kinds pt t ht).wellFormed) (not_kept_unknown pt hu), kept_merged]

theorem found_flatMap_parts {t : Ty} (h : t.WellFormed) (x : Ty) :
    Found ((byName t).flatMap parts) x ↔ Found (parts t) x := by
  rw [found_flatMap]
  constructor
  · rintro ⟨m, hm, y, hy, hxy⟩
    rw [mem_byName] at hm
    obtain ⟨rfl, hn⟩ := (mem_parts_of_not_oneOf (isOneOf_members h hm)).mp hy
    refine ⟨y, ?_, hxy⟩
    cases t with
    | never => simp_all [members, isNever]
    | _ => exact hm
  · rintro ⟨m, hm, hxm⟩
    refine ⟨m, mem_byName.mpr (parts_subset_members t hm), m, ?_, hxm⟩
    obtain ⟨_, rfl | hp⟩ := wellFormed_parts h hm
    · simp [parts, members]
    · simp [parts_of_alternative hp]

theorem isContainer_of_found {F : List Ty} {x : Ty} (h : Found (mergedContainers merged F) x) :
    x.isContainer = true := by
  obtain ⟨c, hc, hxc⟩ := h
  exact (isContainer_of_same hxc).trans (isContainer_mergedContainers hc)

theorem isContainer_of_kept {F : List Ty} (hF : ∀ m ∈ F, m.isOneOf = false) {x : Ty} (h : Kept (loose F) x) :
    x.isContainer = false := by
  by_contra hx
  rw [kept_other (isPrimitiveOrLiteral_container (by simpa using hx)), found_loose hF] at h
  exact hx h.1

section

variable (pt : ∀ t ∈ ts, t.Proper) (hu : .unknown ∉ ts.flatMap byName)

include pt hu

theorem found_members_merged (x : Ty) : Found ((byName (merged ts)).flatMap parts) x ↔
    Kept (loose (ts.flatMap byName)) x ∨ Found (mergedContainers merged (ts.flatMap byName)) x :=
  (found_flatMap_parts (proper_merged pt).wellFormed x).trans (found_parts_merged pt hu x)

theorem found_loose_merged (x : Ty) :
    Found (loose (byName (merged ts))) x ↔ Kept (loose (ts.flatMap byName)) x := by
  have hone : ∀ m ∈ byName (merged ts), m.isOneOf = false := fun m hm =>
    isOneOf_members (proper_merged pt).wellFormed (mem_byName.mp hm)
  rw [found_loose hone, found_members_merged pt hu]
  constructor
  · rintro ⟨hx, h | h⟩
    · exact h
    · exact absurd (isContainer_of_found h) (by simp [hx])
  · exact fun h => ⟨isContainer_of_kept (not_oneOf_flat pt) h, .inl h⟩

theorem like_containers_merged :
    Like ((byName (merged ts)).filter isContainer) (mergedContainers merged (ts.flatMap byName)) := by
  have hone : ∀ m ∈ byName (merged ts), m.isOneOf = false := fun m hm =>
    isOneOf_members (proper_merged pt).wellFormed (mem_byName.mp hm)
  have pm : ∀ m ∈ [merged ts].flatMap byName, m.Proper := proper_flat (by simpa using proper_merged pt)
  refine like_of_found (fun m hm => ?_) (fun c hc => (proper_mergedContainers (proper_flat pt) c hc).self) fun x => ?_
  · exact (pm m (by simpa using (List.mem_filter.mp hm).1)).self
  · rw [found_containers hone, found_members_merged pt hu]
    constructor
    · rintro ⟨hx, h | h⟩
      · exact absurd hx (by simp [isContainer_of_kept (not_oneOf_flat pt) h])
      · exact h
    · exact fun h => ⟨isContainer_of_found h, .inr h⟩

theorem any_group (f : Feature) : (byName (merged ts) ++ us.flatMap byName).any f.holds =
    (ts.flatMap byName ++ us.flatMap byName).any f.holds := by
  rw [List.any_append, List.any_append, ← any_filter, any_of_like f (like_containers_merged pt hu),
    any_mergedContainers]

theorem same_slot_group (pu : ∀ t ∈ us, t.Proper) {s : Slot} (hs : s.Full)
    (h : same (merged (merged (s.all (ts.flatMap byName)) :: s.all (us.flatMap byName)))
      (merged (s.all (ts.flatMap byName) ++ s.all (us.flatMap byName))) = true) :
    same (merged (s.all (byName (merged ts) ++ us.flatMap byName)))
      (merged (s.all (ts.flatMap byName ++ us.flatMap byName))) = true := by
  have hl : Like (s.all (byName (merged ts))) (s.all (mergedContainers merged (ts.flatMap byName))) :=
    slot_filter s ▸ like_slot s (like_containers_merged pt hu)
  have pF := proper_slot s (proper_flat pt)
  have pG := proper_slot s (proper_flat pu)
  have pg : ∀ t ∈ merged ts :: us, t.Proper := List.forall_mem_cons.mpr ⟨proper_merged pt, pu⟩
  have pl : ∀ t ∈ s.all (byName (merged ts)) ++ s.all (us.flatMap byName), t.Proper := by
    simpa only [List.flatMap_cons, Slot.all_append] using proper_slot s (proper_flat pg)
  have hG : Like (s.all (us.flatMap byName)) (s.all (us.flatMap byName)) :=
    like_of_mem_iff (fun t ht => (pG t ht).self) fun t => Iff.rfl
  rw [Slot.all_append, Slot.all_append]
  rcases slot_mergedContainers (proper_flat pt) hs with hm | hm
  · refine same_trans (same_merged pl ?_ ((hl.trans hm).append hG)) h
    exact List.forall_mem_append.mpr ⟨by simpa using proper_merged pF, pG⟩
  · exact same_merged pl (List.forall_mem_append.mpr ⟨pF, pG⟩) ((hl.trans hm).append hG)

end

theorem same_merged_group_to_depth {n : Nat} (pt : ∀ t ∈ ts, t.Proper) (pu : ∀ t ∈ us, t.Proper)
    (dt : ∀ t ∈ ts, depth t < n) (du : ∀ t ∈ us, depth t < n) :
    same (merged (merged ts :: us)) (merged (ts ++ us)) = true := by
  induction n generalizing ts us with
  | zero =>
    obtain rfl := eq_nil_of_depth dt
    obtain rfl := eq_nil_of_depth du
    rfl
  | succ n ih =>
    have pg : ∀ t ∈ merged ts :: us, t.Proper := List.forall_mem_cons.mpr ⟨proper_merged pt, pu⟩
    have pa : ∀ t ∈ ts ++ us, t.Proper := List.forall_mem_append.mpr ⟨pt, pu⟩
    by_cases hu : .unknown ∈ ts.flatMap byName
    · -- `unknown` absorbs the group, and then everything that joins it
      have hg : merged (merged ts :: us) = .unknown := by
        refine merged_of_unknown ?_
        simp [merged_of_unknown hu, mem_byName, members]
      have ha : merged (ts ++ us) = .unknown := by
        refine merged_of_unknown ?_
        rw [List.flatMap_append]
        exact List.mem_append_left _ hu
      rw [hg, ha, same]
    have hslot {s : Slot} (hs : s.Full) := same_slot_group pt hu pu hs <|
      ih (proper_slot s (proper_flat pt)) (proper_slot s (proper_flat pu))
        (depth_slot_flat s dt) (depth_slot_flat s du)
    have pfg := proper_flat pg
    have pfa := proper_flat pa
    have hfa : (ts ++ us).flatMap byName = ts.flatMap byName ++ us.flatMap byName := List.flatMap_append
    refine same_merged_of_kept pg pa (fun x => ?_) (like_mergedContainers ?_ (fun key _ => ?_) ?_ ?_)
    · rw [hfa, List.flatMap_cons, loose_append, loose_append,
        ← kept_normalized_append (loose (ts.flatMap byName))]
      refine kept_congr (fun y => ?_) x
      rw [found_append, found_append, found_loose_merged pt hu]
      rfl
    · rw [hfa]
      exact any_group pt hu
    · refine same_trans (same_mergedField pfg key) (same_trans ?_ (same_symm (same_mergedField pfa key)))
      rw [hfa]
      exact hslot (s := .field key) trivial
    · rw [hfa]
      exact hslot (s := .element) trivial
    · intro length i hi
      rw [hfa]
      exact hslot (s := .place length i) hi

theorem same_merged_group (pt : ∀ t ∈ ts, t.Proper) (pu : ∀ t ∈ us, t.Proper) :
    same (merged (merged ts :: us)) (merged (ts ++ us)) = true := by
  obtain ⟨n, dt, du⟩ := exists_depth_lt ts us
  exact same_merged_group_to_depth pt pu dt du

theorem proper_prepared {exact : Bool} (pt : ∀ t ∈ ts, t.Proper) : ∀ t ∈ ts.map (prepared exact), t.Proper := by
  refine List.forall_mem_map.mpr fun t ht => ⟨wellFormed_prepared (pt t ht).wellFormed, ?_⟩
  exact every_prepared onLeaves_isNumberOrOther (pt t ht).wellFormed (pt t ht).nanFree

theorem prepared_mergedAs {exact : Bool} (wf : ∀ t ∈ ts, t.WellFormed) :
    prepared exact (mergedAs exact ts) = mergedAs exact ts := by
  cases exact with
  | true => rfl
  | false =>
    have hw : ∀ t ∈ ts.map (prepared false), t.WellFormed :=
      List.forall_mem_map.mpr fun t ht => wellFormed_prepared (wf t ht)
    refine widen_of_literalFree (wellFormed_merged hw) (every_mergedTo onLeaves_isNotLiteral hw ?_)
    exact List.forall_mem_map.mpr fun t ht => every_widen onLeaves_isNotLiteral (wf t ht) (.inl ⟨rfl, rfl⟩)

theorem same_merged_groups {groups : List (List Ty)} (pg : ∀ ts ∈ groups, ∀ t ∈ ts, t.Proper)
    (pu : ∀ t ∈ us, t.Proper) : same (merged (groups.map merged ++ us)) (merged (groups.flatten ++ us)) = true := by
  induction groups generalizing us with
  | nil => exact (proper_merged pu).self
  | cons ts groups ih =>
    obtain ⟨pt, pg⟩ := List.forall_mem_cons.mp pg
    have pf : ∀ t ∈ groups.flatten, t.Proper := List.forall_mem_flatten.mpr pg
    have pm : ∀ t ∈ groups.map merged, t.Proper := List.forall_mem_map.mpr fun ts hts => proper_merged (pg ts hts)
    have ptu : ∀ t ∈ ts ++ us, t.Proper := List.forall_mem_append.mpr ⟨pt, pu⟩
    -- the first group is opened, and moved behind the others for the induction
    have swap {vs : List Ty} (pv : ∀ t ∈ vs, t.Proper) :
        same (merged (ts ++ (vs ++ us))) (merged (vs ++ (ts ++ us))) = true := by
      have pl : ∀ t ∈ ts ++ (vs ++ us), t.Proper := by
        simp only [List.forall_mem_append] at ptu ⊢
        exact ⟨pt, pv, pu⟩
      have hc : (ts ++ vs).Perm (vs ++ ts) := List.perm_append_comm
      have hp : (ts ++ (vs ++ us)).Perm (vs ++ (ts ++ us)) := by
        simpa only [List.append_assoc] using hc.append_right us
      refine same_merged pl (fun t ht => pl t (hp.mem_iff.mpr ht)) ?_
      exact like_of_mem_iff (fun t ht => (pl t ht).self) fun _ => hp.mem_iff
    rw [List.map_cons, List.cons_append, List.flatten_cons, List.append_assoc]
    refine same_trans (same_merged_group pt (List.forall_mem_append.mpr ⟨pm, pu⟩)) ?_
    exact same_trans (swap pm) (same_trans (ih pg ptu) (same_symm (swap pf)))

def Agree (x y : Option Ty) : Prop := Option.Rel (fun a b => same a b = true) x y

theorem merge?_perm (exact : Bool) (pt : ∀ t ∈ ts, t.Proper) (h : us.Perm ts) :
    Agree (merge? exact us) (merge? exact ts) := by
  have pu : ∀ t ∈ us, t.Proper := fun t ht => pt t (h.mem_iff.mp ht)
  have hm : (∀ t ∈ us, (prepared exact t).Mergeable) ↔ ∀ t ∈ ts, (prepared exact t).Mergeable := by
    simp only [h.mem_iff]
  rw [merge?_eq_ite fun t ht => (pt t ht).wellFormed, merge?_eq_ite fun t ht => (pu t ht).wellFormed, Agree]
  by_cases hd : ∀ t ∈ ts, (prepared exact t).Mergeable
  · rw [if_pos hd, if_pos (hm.mpr hd)]
    refine .some (same_merged (proper_prepared pu) (proper_prepared pt) ?_)
    exact like_of_mem_iff (fun t ht => (proper_prepared pu t ht).self) fun _ => (h.map _).mem_iff
  · rw [if_neg hd, if_neg (hm.not.mpr hd)]
    exact .none

def mergeGroups? (exact : Bool) (groups : List (List Ty)) : Option Ty := do
  let ts ← groups.mapM (merge? exact)
  merge? exact ts

theorem agree_mergeGroups_iff (exact : Bool) (groups : List (List Ty)) (pg : ∀ ts ∈ groups, ∀ t ∈ ts, t.Proper) :
    Agree (mergeGroups? exact groups) (merge? exact groups.flatten) ↔
      ∀ ts, groups.mapM (merge? exact) = some ts → ∀ t ∈ ts, t.Mergeable := by
  have pf : ∀ t ∈ groups.flatten, t.Proper := List.forall_mem_flatten.mpr pg
  have hsome (ts : List Ty) (hts : ts ∈ groups) :
      (merge? exact ts).isSome = true ↔ ∀ t ∈ ts, (prepared exact t).Mergeable := by
    rw [merge?_eq_ite fun t ht => (pg ts hts t ht).wellFormed]
    split <;> simp_all
  have hall : (∀ t ∈ groups.flatten, (prepared exact t).Mergeable) ↔ (groups.mapM (merge? exact)).isSome = true := by
    rw [mapM_isSome, List.forall_mem_flatten]
    exact (forall₂_congr hsome).symm
  rw [merge?_eq_ite fun t ht => (pf t ht).wellFormed, mergeGroups?]
  cases hg : groups.mapM (merge? exact) with
  | none =>
    rw [if_neg (hall.not.mpr (by simp [hg]))]
    exact iff_of_true .none nofun
  | some ms =>
    obtain rfl := mapM_eq_map (fun _ _ => eq_mergedAs_of_merge?) hg
    have hw : ∀ ts ∈ groups, ∀ t ∈ ts, t.WellFormed := fun ts hts t ht => (pg ts hts t ht).wellFormed
    have hwm : ∀ t ∈ groups.map (mergedAs exact), t.WellFormed :=
      List.forall_mem_map.mpr fun ts hts => wellFormed_mergedAs (hw ts hts)
    have hm : ∀ t ∈ groups.map (mergedAs exact), prepared exact t = t :=
      List.forall_mem_map.mpr fun ts hts => prepared_mergedAs (hw ts hts)
    have hcond : (∀ t ∈ groups.map (mergedAs exact), (prepared exact t).Mergeable) ↔
        ∀ t ∈ groups.map (mergedAs exact), t.Mergeable :=
      forall₂_congr fun t ht => by rw [hm t ht]
    have hs : same (mergedAs exact (groups.map (mergedAs exact))) (mergedAs exact groups.flatten) = true := by
      have pp : ∀ ts ∈ groups.map (List.map (prepared exact)), ∀ t ∈ ts, t.Proper :=
        List.forall_mem_map.mpr fun ts hts => proper_prepared (pg ts hts)
      have h := same_merged_groups pp (List.forall_mem_nil Proper)
      rw [List.append_nil, List.append_nil, List.map_map, ← List.map_flatten] at h
      rw [mergedAs, List.map_congr_left hm, List.map_id']
      exact h
    rw [if_pos (hall.mpr (by simp [hg])), Option.bind_eq_bind, Option.bind_some, merge?_eq_ite hwm]
    simp only [Option.some.injEq, forall_eq']
    rw [← hcond]
    split
    · next h => exact iff_of_true (.some hs) h
    · next h => exact iff_of_false nofun h

theorem printable_mergedAs {exact : Bool} (wf : ∀ t ∈ ts, t.WellFormed) (h : ∀ t ∈ ts, t.Printable) :
    (mergedAs exact ts).Printable := by
  refine every_mergedTo onLeaves_hasText ?_ ?_
  · exact List.forall_mem_map.mpr fun t ht => wellFormed_prepared (wf t ht)
  · exact List.forall_mem_map.mpr fun t ht => every_prepared onLeaves_hasText (wf t ht) (h t ht)

theorem agree_two_groups_iff (exact : Bool) (pt : ∀ t ∈ ts, t.Proper) (pu : ∀ t ∈ us, t.Proper) :
    Agree (mergeGroups? exact [ts, us]) (merge? exact (ts ++ us)) ↔
      ∀ a b, merge? exact ts = some a → merge? exact us = some b → a.Mergeable ∧ b.Mergeable := by
  have pg : ∀ g ∈ [ts, us], ∀ t ∈ g, t.Proper := List.forall_mem_cons.mpr ⟨pt, List.forall_mem_singleton.mpr pu⟩
  have h := agree_mergeGroups_iff exact [ts, us] pg
  rw [List.flatten_cons, List.flatten_singleton] at h
  rw [h]
  cases ht : merge? exact ts <;> cases hu : merge? exact us <;> simp [ht, hu]

theorem agree_one_group_iff (exact : Bool) (pt : ∀ t ∈ ts, t.Proper) :
    Agree (mergeGroups? exact [ts]) (merge? exact ts) ↔ ∀ a, merge? exact ts = some a → a.Mergeable := by
  have h := agree_mergeGroups_iff exact [ts] (List.forall_mem_singleton.mpr pt)
  rw [List.flatten_singleton] at h
  rw [h]
  cases ht : merge? exact ts <;> simp [ht]

/-- The order of types does not matter to their merge. Merging by groups, or once more, gives the merge of all types
exactly where the groups' results can be merged, as they can be when every literal has a text. -/
theorem merge_order_and_groups (exact : Bool) (A B : List Ty) (wf : ∀ t ∈ A ++ B, t.WellFormed)
    (nan : ∀ t ∈ A ++ B, t.NanFree) :
    (∀ C, C.Perm (A ++ B) → Agree (merge? exact C) (merge? exact (A ++ B))) ∧
    (Agree (mergeGroups? exact [A, B]) (merge? exact (A ++ B)) ↔
      ∀ a b, merge? exact A = some a → merge? exact B = some b → a.Mergeable ∧ b.Mergeable) ∧
    (Agree (mergeGroups? exact [A]) (merge? exact A) ↔ ∀ a, merge? exact A = some a → a.Mergeable) ∧
    ((∀ t ∈ A ++ B, t.Printable) → (merge? exact (A ++ B)).isSome = true ∧
      Agree (mergeGroups? exact [A, B]) (merge? exact (A ++ B)) ∧
      Agree (mergeGroups? exact [A]) (merge? exact A)) := by
  have pt : ∀ t ∈ A ++ B, t.Proper := fun t ht => ⟨wf t ht, nan t ht⟩
  obtain ⟨pa, pb⟩ := List.forall_mem_append.mp pt
  have hpair := agree_two_groups_iff exact pa pb
  have hone := agree_one_group_iff exact pa
  have hresult {ts : List Ty} (hw : ∀ t ∈ ts, t.WellFormed) (hp : ∀ t ∈ ts, t.Printable) {a : Ty}
      (ha : merge? exact ts = some a) : a.Mergeable := by
    rw [eq_mergedAs_of_merge? ha]
    exact mergeable_of_printable (printable_mergedAs hw hp)
  refine ⟨fun C hC => merge?_perm exact pt hC, hpair, hone, fun hp => ?_⟩
  obtain ⟨hpa, hpb⟩ := List.forall_mem_append.mp hp
  have hwa := fun t ht => (pa t ht).wellFormed
  have hwb := fun t ht => (pb t ht).wellFormed
  refine ⟨?_, hpair.mpr fun a b ha hb => ⟨hresult hwa hpa ha, hresult hwb hpb hb⟩,
    hone.mpr fun a ha => hresult hwa hpa ha⟩
  rw [merge?_eq_ite wf, if_pos]
  · rfl
  · exact fun t ht => mergeable_of_printable (every_prepared onLeaves_hasText (wf t ht) (hp t ht))

theorem merge_order_and_groups_of_objects :
    Agree (mergeGroups? true [[.oneOf [int 1, text "a"], .object [("x", int 1)]], [.object [("y", boolean)], int 2]])
      (merge? true [.oneOf [int 1, text "a"], .object [("x", int 1)], .object [("y", boolean)], int 2]) := by
  have h := merge_order_and_groups true [.oneOf [int 1, text "a"], .object [("x", int 1)]]
    [.object [("y", boolean)], int 2] (by decide) (by decide)
  exact (h.2.2.2 (by decide +kernel)).2.1

-- an integer of more than 4300 digits has no text, so alternatives that hold it cannot be merged again
example : (mergeGroups? true [[int (10 ^ 4300), int 2], [number]]).isNone = true ∧
    ((merge? true [int (10 ^ 4300), int 2, number]).any (same number)) = true := by
  decide +kernel

end Casewise.Ty
