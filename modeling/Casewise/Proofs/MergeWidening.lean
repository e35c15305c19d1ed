import Casewise.Proofs.MergeCovers
import Casewise.Proofs.Writing

namespace Casewise.Ty

variable {ts F : List Ty} {t x : Ty}

theorem inward_widen : Inward widen where
  object fs := by rw [widen, widenFields_eq_map]
  array e := by rw [widen]
  tuple es := by rw [widen, widenAll_eq_map]

theorem proper_widen (h : t.Proper) : (widen t).Proper :=
  ⟨wellFormed_widen h.wellFormed, every_widen onLeaves_isNumberOrOther h.wellFormed (.inr h.nanFree)⟩

theorem proper_map_widen (h : ∀ t ∈ ts, t.Proper) : ∀ t ∈ ts.map widen, t.Proper :=
  List.forall_mem_map.mpr fun t ht => proper_widen (h t ht)

theorem wellFormed_map_widen (h : ∀ t ∈ ts, t.WellFormed) : ∀ t ∈ ts.map widen, t.WellFormed :=
  List.forall_mem_map.mpr fun t ht => wellFormed_widen (h t ht)

theorem like_map_widen {as bs : List Ty} (h : Like as bs)
    (hw : ∀ a ∈ as, ∀ b ∈ bs, same a b = true → same (widen a) (widen b) = true) :
    Like (as.map widen) (bs.map widen) := by
  constructor
  · intro x hx
    obtain ⟨a, ha, rfl⟩ := List.mem_map.mp hx
    obtain ⟨b, hb, hab⟩ := h.1 a ha
    exact ⟨_, List.mem_map_of_mem hb, hw a ha b hb hab⟩
  · intro y hy
    obtain ⟨b, hb, rfl⟩ := List.mem_map.mp hy
    obtain ⟨a, ha, hab⟩ := h.2 b hb
    exact ⟨_, List.mem_map_of_mem ha, hw a ha b hb hab⟩

theorem same_widen {a b : Ty} (wa : a.WellFormed) (wb : b.WellFormed) (h : same a b = true) :
    same (widen a) (widen b) = true := by
  induction a using induct generalizing b with
  | literal s =>
    obtain ⟨s', rfl, hs⟩ := same_literal_left.mp h
    rw [widen, widen, Scalar.primitive_of_same hs]
    simp
  | oneOf ms ih =>
    obtain ⟨ns, rfl, hl⟩ := same_oneOf_left.mp h
    have wm : ∀ m ∈ ms, m.WellFormed := fun m hm => every_child wa hm
    have wn : ∀ n ∈ ns, n.WellFormed := fun n hn => every_child wb hn
    have hlike : Like (ms.map widen) (ns.map widen) :=
      like_map_widen hl fun m hm n hn => ih m hm (wm m hm) (wn n hn)
    rw [widen, widen, widenAll_eq_map, widenAll_eq_map]
    refine same_union_of_like (fun x hx => ⟨?_, ?_⟩) (fun y hy => ⟨?_, ?_⟩) hlike
    · exact wellFormed_map_widen wm x hx
    · obtain ⟨y, _, hxy⟩ := hlike.1 x hx
      exact same_self_left hxy
    · exact wellFormed_map_widen wn y hy
    · obtain ⟨x, _, hxy⟩ := hlike.2 y hy
      exact same_self_right hxy
  | object fs ih =>
    obtain ⟨gs, rfl, hf⟩ := same_object_left.mp h
    obtain ⟨hlen, hz⟩ := List.forall₂_iff_zip.mp hf
    rw [inward_widen.object, inward_widen.object]
    refine same_object_left.mpr ⟨_, rfl, ?_⟩
    rw [List.forall₂_map_left_iff, List.forall₂_map_right_iff, List.forall₂_iff_zip]
    refine ⟨hlen, fun {f g} hfg => ⟨(hz hfg).1, ?_⟩⟩
    obtain ⟨hf, hg⟩ := List.of_mem_zip hfg
    exact ih f hf (every_child wa (List.mem_map_of_mem hf)) (every_child wb (List.mem_map_of_mem hg)) (hz hfg).2
  | array e ih =>
    obtain ⟨e', rfl, he⟩ := same_array_left.mp h
    exact same_array_left.mpr ⟨_, rfl, ih (wellFormed_array.mp wa) (wellFormed_array.mp wb) he⟩
  | tuple es ih =>
    obtain ⟨es', rfl, he⟩ := same_tuple_left.mp h
    obtain ⟨hlen, hz⟩ := List.forall₂_iff_zip.mp he
    rw [inward_widen.tuple, inward_widen.tuple]
    refine same_tuple_left.mpr ⟨_, rfl, ?_⟩
    rw [List.forall₂_map_left_iff, List.forall₂_map_right_iff, List.forall₂_iff_zip]
    refine ⟨hlen, fun {e e'} hee => ?_⟩
    obtain ⟨hm, hm'⟩ := List.of_mem_zip hee
    exact ih e hm (every_child wa hm) (every_child wb hm') (hz hee)
  | function ps r =>
    obtain ⟨qs, s, rfl, _⟩ := same_function_left.mp h
    exact h
  | _ => simp_all [widen]

section

variable (hF : ∀ m ∈ F, m.isOneOf = false)

include hF

theorem not_found_literal (s : Scalar) : ¬ Found (F.map widen) (.literal s) := by
  rintro ⟨y, hy, hs⟩
  obtain ⟨s', rfl, _⟩ := same_literal_left.mp hs
  obtain ⟨m, hm, he⟩ := List.mem_map.mp hy
  have hone := hF m hm
  cases m <;> simp [widen, isOneOf] at he hone

theorem kept_map_widen : Kept (F.map widen) x ↔ Found (F.map widen) x := by
  have hbool (b : Bool) : ¬ Found (F.map widen) (bool b) := not_found_literal hF _
  cases x with
  | primitive q => simp only [kept_primitive, hbool, and_false, or_false]
  | literal s => simp only [kept_literal, not_found_literal hF, false_and]
  | _ => rw [kept_other rfl]

end

theorem isOneOf_of_alternative (h : isAlternative t = true) : t.isOneOf = false := by
  cases t <;> simp_all [isAlternative, isOneOf]

theorem isAlternative_widen (h : isAlternative t = true) : isAlternative (widen t) = true := by
  cases t <;> simp_all [isAlternative, widen]

theorem plain_map_widen (h : ∀ m ∈ F, isAlternative m = true) : ∀ m ∈ F.map widen, isAlternative m = true :=
  List.forall_mem_map.mpr fun m hm => isAlternative_widen (h m hm)

theorem parts_widen_oneOf {ms : List Ty} (h : (oneOf ms).WellFormed) :
    parts (widen (.oneOf ms)) = normalized (distinctBy same (ms.map widen)) := by
  obtain ⟨⟨_, hr⟩, hw⟩ := wellFormed_oneOf.mp h
  have hflat : (ms.map widen).flatMap parts = ms.map widen := flatMap_parts_of_plain (plain_map_widen hr.plain)
  have hunknown : ¬ Found ((ms.map widen).flatMap parts) .unknown := by
    rw [hflat, found_unknown]
    intro hm
    have := plain_map_widen hr.plain _ hm
    simp [isAlternative] at this
  rw [widen, widenAll_eq_map, parts_union (wellFormed_map_widen hw) hunknown, hflat]

theorem found_parts_widen (h : t.WellFormed) : Found (parts (widen t)) x ↔ Found ((parts t).map widen) x := by
  cases t with
  | oneOf ms =>
    obtain ⟨⟨_, hr⟩, _⟩ := wellFormed_oneOf.mp h
    rw [parts_widen_oneOf h]
    exact (kept_distinctBy _ x).trans (kept_map_widen fun m hm => isOneOf_of_alternative (hr.plain m hm))
  | _ => simp [parts, members, widen]

theorem mem_map_widen_normalized : x ∈ (normalized F).map widen ↔ x ∈ F.map widen := by
  constructor
  · intro h
    obtain ⟨m, hm, rfl⟩ := List.mem_map.mp h
    rcases mem_foldBooleans.mp (mem_normalized.mp hm).1 with hm | ⟨rfl, htrue, _⟩
    · exact List.mem_map_of_mem hm
    · exact List.mem_map.mpr ⟨bool true, htrue, rfl⟩
  · intro h
    obtain ⟨m, hm, rfl⟩ := List.mem_map.mp h
    have hfold : m ∈ foldBooleans F := mem_foldBooleans.mpr (.inl hm)
    by_cases ha : absorbed (foldBooleans F) m = true
    · -- an absorbed literal widens to the type that absorbs it
      obtain ⟨s, rfl, hp⟩ := absorbed_iff.mp ha
      exact List.mem_map.mpr ⟨.primitive s.primitive, mem_normalized.mpr ⟨hp, rfl⟩, rfl⟩
    · exact List.mem_map_of_mem (mem_normalized.mpr ⟨hfold, by simpa using ha⟩)

theorem widen_collapse {ms : List Ty} (wf : ∀ m ∈ ms, m.WellFormed) :
    widen (collapse ms) = union (ms.map widen) := by
  match ms with
  | [] => rfl
  | [m] => exact (union_single (wellFormed_widen (wf m (by simp)))).symm
  | m :: n :: ms =>
    show widen (.oneOf (m :: n :: ms)) = _
    rw [widen, widenAll_eq_map]

theorem found_flatMap_parts_widen (wf : ∀ t ∈ ts, t.WellFormed) :
    Found ((ts.map widen).flatMap parts) x ↔ Found ((ts.flatMap parts).map widen) x := by
  rw [List.flatMap_map, List.map_flatMap, found_flatMap, found_flatMap]
  exact exists_congr fun t => and_congr_right fun ht => found_parts_widen (wf t ht)

theorem found_map_widen_distinct (wf : ∀ m ∈ F, m.WellFormed) :
    Found ((distinctBy same F).map widen) x ↔ Found (F.map widen) x := by
  constructor
  · exact fun h => h.mono fun y hy => by
      obtain ⟨m, hm, rfl⟩ := List.mem_map.mp hy
      exact List.mem_map_of_mem (mem_of_mem_distinctBy hm)
  · rintro ⟨y, hy, hxy⟩
    obtain ⟨m, hm, rfl⟩ := List.mem_map.mp hy
    by_cases hself : same m m = true
    · obtain ⟨u, hu, hum⟩ := exists_mem_distinctBy same same_trans hm hself
      have hwide := same_widen (wf u (mem_of_mem_distinctBy hu)) (wf m hm) hum
      exact ⟨widen u, List.mem_map_of_mem hu, same_trans hxy (same_symm hwide)⟩
    · -- a type that does not equal itself equals no other either
      exact ⟨widen m, List.mem_map_of_mem (mem_distinctBy_of_apart hm (apart_of_not_self hself)), hxy⟩

def Widens (t : Ty) : Prop := t.WellFormed ∧ same (widen t) (widen t) = true

theorem Widens.regular (h : t.Widens) : (widen t).Regular := ⟨wellFormed_widen h.1, h.2⟩

theorem Proper.widens (h : t.Proper) : t.Widens := ⟨h.wellFormed, (proper_widen h).self⟩

theorem Widens.part {m : Ty} (h : t.Widens) (hm : m ∈ parts t) : m.Widens := by
  refine ⟨(wellFormed_parts h.1 hm).1, ?_⟩
  cases t with
  | oneOf ms =>
    by_contra hself
    have hkept : widen m ∈ normalized (distinctBy same (ms.map widen)) := by
      refine mem_normalized.mpr ⟨mem_foldBooleans.mpr (.inl ?_), ?_⟩
      · exact mem_distinctBy_of_apart (List.mem_map_of_mem hm) (apart_of_not_self hself)
      · have hone := isOneOf_of_alternative ((wellFormed_oneOf.mp h.1).1.2.plain m hm)
        cases m <;> simp_all [widen, absorbed, isOneOf]
    rw [← parts_widen_oneOf h.1] at hkept
    exact hself (same_self_parts h.2 hkept)
  | never => simp [parts] at hm
  | _ => exact List.mem_singleton.mp hm ▸ h.2

theorem same_widen_union (ht : ∀ t ∈ ts, t.Widens) : same (widen (union ts)) (union (ts.map widen)) = true := by
  have wf : ∀ t ∈ ts, t.WellFormed := fun t h => (ht t h).1
  have wp : ∀ m ∈ ts.flatMap parts, m.Widens := by
    intro m hm
    obtain ⟨t, h, hmt⟩ := List.mem_flatMap.mp hm
    exact (ht t h).part hmt
  by_cases hu : Found (ts.flatMap parts) .unknown
  · have hw : Found ((ts.map widen).flatMap parts) .unknown := by
      rw [found_flatMap_parts_widen wf, found_unknown]
      exact List.mem_map.mpr ⟨.unknown, found_unknown.mp hu, rfl⟩
    rw [union_of_unknown hu, union_of_unknown hw]
    rfl
  · have hr := reduced_union wf hu
    have wn : ∀ m ∈ normalized (distinctBy same (ts.flatMap parts)), m.Widens := by
      intro m hm
      rcases mem_of_mem_normalized hm with hm | rfl
      · exact wp m (mem_of_mem_distinctBy hm)
      · exact ⟨rfl, rfl⟩
    rw [union_eq, if_neg (unknown_mem_distinct.not.mpr hu), widen_collapse fun m hm => (wn m hm).1]
    apply same_union_of_kept
    · exact List.forall_mem_map.mpr fun m hm => (wn m hm).regular.self
    · exact List.forall_mem_map.mpr fun t h => (ht t h).regular.self
    apply kept_congr
    intro y
    rw [flatMap_parts_of_plain (plain_map_widen hr.plain), found_flatMap_parts_widen wf,
      ← found_map_widen_distinct fun m hm => (wp m hm).1]
    simp only [Found, mem_map_widen_normalized]

section

variable (h : t.isOneOf = false)

include h

theorem isContainer_widen : (widen t).isContainer = t.isContainer := by
  cases t <;> simp_all [widen, isContainer, isOneOf]

theorem Feature.holds_widen (f : Feature) : f.holds (widen t) = f.holds t := by
  cases t with
  | oneOf ms => simp [isOneOf] at h
  | object fs =>
    rw [inward_widen.object]
    cases f <;> simp [holds, Bindings.get?_mapValues]
  | array e => cases f <;> rfl
  | tuple es =>
    rw [inward_widen.tuple]
    cases f <;> simp [holds]
  | _ => rw [f.holds_eq_false rfl, f.holds_eq_false rfl]

theorem Slot.get?_widen (s : Slot) : s.get? (widen t) = (s.get? t).map widen := by
  cases t with
  | oneOf ms => simp [isOneOf] at h
  | object fs =>
    rw [inward_widen.object]
    cases s with
    | present key => exact Bindings.get?_mapValues widen key fs
    | field key =>
      simp only [get?, Bindings.get?_mapValues]
      cases Bindings.get? key fs <;> rfl
    | _ => rfl
  | array e => cases s <;> rfl
  | tuple es =>
    rw [inward_widen.tuple]
    cases s with
    | place length index =>
      simp only [get?, List.length_map, List.getElem?_map]
      split <;> rfl
    | _ => rfl
  | _ => rw [s.get?_eq_none rfl, s.get?_eq_none rfl, Option.map_none]

end

theorem like_members_widen (h : t.Widens) : Like (widen t).members (t.members.map widen) := by
  cases t with
  | oneOf ms =>
    have hself : ∀ m ∈ ms.map widen, same m m = true := List.forall_mem_map.mpr fun m hm => (h.part hm).2
    have hsome : widen (.oneOf ms) ≠ .never := by
      intro hn
      obtain ⟨⟨hl, _⟩, _⟩ := wellFormed_oneOf.mp h.1
      obtain ⟨m, hm⟩ := List.exists_mem_of_length_pos (show 0 < ms.length by omega)
      have hf : Found (parts (widen (.oneOf ms))) (widen m) :=
        (found_parts_widen h.1).mpr (found_of_mem (List.mem_map_of_mem hm) (h.part hm).2)
      rw [hn] at hf
      exact found_nil hf
    have hparts : parts (widen (.oneOf ms)) = (widen (.oneOf ms)).members := by
      generalize widen (.oneOf ms) = u at hsome
      cases u <;> simp_all [parts]
    rw [← hparts]
    exact like_of_found (fun m hm => same_self_parts h.2 hm) hself fun x => found_parts_widen h.1
  | _ => exact like_single h.2

theorem like_byName_widen (h : t.Proper) : Like (byName (widen t)) ((byName t).map widen) := by
  obtain ⟨hl, hr⟩ := like_members_widen h.widens
  constructor
  · intro x hx
    obtain ⟨y, hy, hxy⟩ := hl x (mem_byName.mp hx)
    obtain ⟨m, hm, rfl⟩ := List.mem_map.mp hy
    exact ⟨_, List.mem_map_of_mem (mem_byName.mpr hm), hxy⟩
  · intro y hy
    obtain ⟨m, hm, rfl⟩ := List.mem_map.mp hy
    obtain ⟨x, hx, hxy⟩ := hr _ (List.mem_map_of_mem (mem_byName.mp hm))
    exact ⟨x, mem_byName.mpr hx, hxy⟩

theorem like_flat_widen (pt : ∀ t ∈ ts, t.Proper) :
    Like ((ts.map widen).flatMap byName) ((ts.flatMap byName).map widen) := by
  rw [List.flatMap_map, List.map_flatMap]
  constructor
  · intro m hm
    obtain ⟨t, ht, hmt⟩ := List.mem_flatMap.mp hm
    obtain ⟨n, hn, hmn⟩ := (like_byName_widen (pt t ht)).1 m hmt
    exact ⟨n, List.mem_flatMap.mpr ⟨t, ht, hn⟩, hmn⟩
  · intro n hn
    obtain ⟨t, ht, hnt⟩ := List.mem_flatMap.mp hn
    obtain ⟨m, hm, hmn⟩ := (like_byName_widen (pt t ht)).2 n hnt
    exact ⟨m, List.mem_flatMap.mpr ⟨t, ht, hm⟩, hmn⟩

section

variable (hF : ∀ m ∈ F, m.isOneOf = false)

include hF

theorem filter_map_widen :
    (F.map widen).filter (fun t => !t.isContainer) = (F.filter fun t => !t.isContainer).map widen := by
  rw [List.filter_map]
  congr 1
  apply List.filter_congr
  intro m hm
  simp [isContainer_widen (hF m hm)]

theorem any_map_widen (f : Feature) : (F.map widen).any f.holds = F.any f.holds := by
  rw [List.any_map, Bool.eq_iff_iff, List.any_eq_true, List.any_eq_true]
  apply exists_congr
  intro m
  apply and_congr_right
  intro hm
  rw [Function.comp_apply, f.holds_widen (hF m hm)]

theorem slot_map_widen (s : Slot) : s.all (F.map widen) = (s.all F).map widen := by
  rw [Slot.all, Slot.all, List.filterMap_map, List.map_filterMap]
  apply List.filterMap_congr
  intro m hm
  exact s.get?_widen (hF m hm)

end

theorem proper_mergedField (pF : ∀ t ∈ F, t.Proper) (key : String) :
    (mergedField merged (F.filterMap fields?) key).Proper := by
  have pm := proper_merged (proper_slot (.present key) pF)
  have pu : ∀ t ∈ [merged ((Slot.present key).all F), undefined], t.Proper := by simpa using ⟨pm, proper_undefined⟩
  rw [mergedField_eq]
  split
  · exact ⟨wellFormed_union fun t ht => (pu t ht).wellFormed,
      every_union onLeaves_isNumberOrOther (fun t ht => (pu t ht).wellFormed) fun t ht => (pu t ht).nanFree⟩
  · exact pm

theorem same_merged_widen_to_depth {n : Nat} (pt : ∀ t ∈ ts, t.Proper) (dt : ∀ t ∈ ts, depth t < n) :
    same (merged (ts.map widen)) (widen (merged ts)) = true := by
  induction n generalizing ts with
  | zero =>
    obtain rfl := eq_nil_of_depth dt
    rfl
  | succ n ih =>
    have pw := proper_map_widen pt
    have pF := proper_flat pt
    have pG := proper_flat pw
    have hF := not_oneOf_flat pt
    have hflat := like_flat_widen pt
    have hslot (s : Slot) : same (merged (s.all ((ts.map widen).flatMap byName)))
        (widen (merged (s.all (ts.flatMap byName)))) = true := by
      have ps := proper_slot s pF
      have hlike := like_slot s hflat
      rw [slot_map_widen hF] at hlike
      exact same_trans (same_merged (proper_slot s pG) (proper_map_widen ps) hlike) (ih ps (depth_slot_flat s dt))
    have hloose := hflat.filter fun x y (hxy : same x y = true) => congrArg (!·) (isContainer_of_same hxy)
    rw [filter_map_widen hF] at hloose
    have hcontainers : Like (mergedContainers merged ((ts.map widen).flatMap byName))
        ((mergedContainers merged (ts.flatMap byName)).map widen) := by
      apply like_map_mergedContainers inward_widen
      · intro f
        rw [any_of_like f hflat, any_map_widen hF]
      · intro key _
        have hfield := same_symm (same_mergedField pF key)
        have hwide := same_widen (proper_merged (proper_slot (.field key) pF)).wellFormed
          (proper_mergedField pF key).wellFormed hfield
        exact same_trans (same_mergedField pG key) (same_trans (hslot (.field key)) hwide)
      · exact hslot .element
      · exact fun length i _ => hslot (.place length i)
    have hkinds := hloose.append hcontainers
    rw [← List.map_append] at hkinds
    rw [merged_eq, merged_eq]
    refine same_trans ?_ (same_symm (same_widen_union fun t ht => (proper_kinds pt t ht).widens))
    exact same_union_of_like (regular_of_proper (proper_kinds pw))
      (regular_of_proper (proper_map_widen (proper_kinds pt))) hkinds

theorem same_merged_widen (pt : ∀ t ∈ ts, t.Proper) : same (merged (ts.map widen)) (widen (merged ts)) = true :=
  same_merged_widen_to_depth pt fun t ht => Nat.lt_succ_of_le (depthAll_le.mp le_rfl t ht)

theorem mergeable_widen (h : t.Mergeable) : (widen t).Mergeable := by
  induction t using induct with
  | oneOf ms =>
    have hnames := names?_isSome.mp (every_iff.mp h).1
    apply mergeable_of_printable
    apply printable_widen
    exact every_iff.mpr ⟨rfl, fun m hm => printable_of_name? (hnames m hm)⟩
  | object fs ih =>
    refine (every_widen_iff rfl rfl).mpr ⟨rfl, List.forall_mem_map.mpr fun f hf => ?_⟩
    exact ih f hf (every_inside h rfl (List.mem_map_of_mem hf))
  | array e ih =>
    refine (every_widen_iff rfl rfl).mpr ⟨rfl, List.forall_mem_singleton.mpr ?_⟩
    exact ih (every_inside h rfl (by simp [children]))
  | tuple es ih => exact (every_widen_iff rfl rfl).mpr ⟨rfl, fun e he => ih e he (every_inside h rfl he)⟩
  | literal s => rfl
  | _ => exact h

/-- The ordinary merge is the widened exact one wherever the exact one is defined; it is defined at more types only
where a union in them has an alternative without a name, which widening removes. -/
theorem merge_is_widened_exact_merge (ts : List Ty) (wf : ∀ t ∈ ts, t.WellFormed) (nan : ∀ t ∈ ts, t.NanFree) :
    (∀ p, merge? true ts = some p → ∃ r, merge? false ts = some r ∧ same r p.widen = true) ∧
    (Agree (merge? false ts) ((merge? true ts).map widen) ↔
      ((∀ t ∈ ts, t.widen.Mergeable) → ∀ t ∈ ts, t.Mergeable)) ∧
    ((∀ t ∈ ts, t.Printable) → ∃ p, merge? true ts = some p) := by
  have pt : ∀ t ∈ ts, t.Proper := fun t ht => ⟨wf t ht, nan t ht⟩
  have hsame : same (mergedAs false ts) (mergedAs true ts).widen = true := by
    have h := same_merged_widen pt
    rwa [← List.map_id' ts, List.map_map] at h
  have hwiden : (∀ t ∈ ts, t.Mergeable) → ∀ t ∈ ts, t.widen.Mergeable := fun h t ht => mergeable_widen (h t ht)
  have hexact : merge? true ts = if ∀ t ∈ ts, t.Mergeable then some (mergedAs true ts) else none := merge?_eq_ite wf
  have hordinary : merge? false ts = if ∀ t ∈ ts, t.widen.Mergeable then some (mergedAs false ts) else none :=
    merge?_eq_ite wf
  rw [hexact, hordinary]
  refine ⟨?_, ?_, ?_⟩
  · intro p hp
    rw [Option.ite_none_right_eq_some] at hp
    obtain ⟨hm, he⟩ := hp
    obtain rfl := Option.some.inj he
    exact ⟨_, if_pos (hwiden hm), hsame⟩
  · by_cases hm : ∀ t ∈ ts, t.Mergeable
    · rw [if_pos hm, if_pos (hwiden hm)]
      exact iff_of_true (.some hsame) fun _ => hm
    · rw [if_neg hm]
      by_cases hw : ∀ t ∈ ts, t.widen.Mergeable
      · rw [if_pos hw]
        exact iff_of_false nofun fun h => hm (h hw)
      · rw [if_neg hw]
        exact iff_of_true .none fun h => absurd h hw
  · intro hp
    exact ⟨_, if_pos fun t ht => mergeable_of_printable (hp t ht)⟩

theorem merge_is_widened_exact_merge_of_objects :
    ∃ p r, merge? true [.oneOf [int 1, text "a"], .object [("x", int 1)], .object [("x", bool true), ("y", bool false)],
        .tuple [bool true], .tuple [.oneOf [bool false, null]]] = some p ∧
      merge? false [.oneOf [int 1, text "a"], .object [("x", int 1)], .object [("x", bool true), ("y", bool false)],
        .tuple [bool true], .tuple [.oneOf [bool false, null]]] = some r ∧ same r p.widen = true := by
  have h := merge_is_widened_exact_merge [.oneOf [int 1, text "a"], .object [("x", int 1)],
    .object [("x", bool true), ("y", bool false)], .tuple [bool true], .tuple [.oneOf [bool false, null]]]
    (by decide) (by decide)
  obtain ⟨p, hp⟩ := h.2.2 (by decide +kernel)
  obtain ⟨r, hr, hs⟩ := h.1 p hp
  exact ⟨p, r, hp, hr, hs⟩

-- an integer of more than 4300 digits has no name: widened first the types merge, and kept exact they do not
example : (merge? true [.oneOf [int (10 ^ 4300), int 2], number]).isNone = true ∧
    ((merge? false [.oneOf [int (10 ^ 4300), int 2], number]).any (same number)) = true := by
  decide +kernel

end Casewise.Ty
