import Casewise.Proofs.Naming
import Casewise.Proofs.OptionalFields

namespace Casewise.Ty

variable {ts us F G A B C : List Ty} {t u : Ty}

theorem isLeft_append_containers (hC : ∀ c ∈ C, c.isContainer = true) : isLeft (A ++ C) = isLeft A := by
  have hkept (q : Primitive) : Kept (A ++ C) (.primitive q) ↔ Kept A (.primitive q) := by
    rw [kept_append_containers hC, or_iff_left]
    intro hq
    simpa [isContainer] using hC _ (found_primitive.mp hq)
  exact funext fun _ =>
    Bool.eq_iff_iff.mpr ⟨isLeft_anti fun q => (hkept q).mpr, isLeft_anti fun q => (hkept q).mp⟩

theorem bothTruths_append_containers (hC : ∀ c ∈ C, c.isContainer = true) : BothTruths (A ++ C) ↔ BothTruths A := by
  have hmem {x : Ty} (hx : x.isContainer = false) : x ∈ A ++ C ↔ x ∈ A := by
    rw [List.mem_append, or_iff_left]
    intro hc
    simp [hC x hc] at hx
  constructor
  · exact fun h => ⟨(hmem rfl).mp h.whenTrue, (hmem rfl).mp h.whenFalse, (hmem rfl).not.mp h.apart⟩
  · exact fun h => ⟨(hmem rfl).mpr h.whenTrue, (hmem rfl).mpr h.whenFalse, (hmem rfl).not.mpr h.apart⟩

theorem isLeft_container {c : Ty} (h : c.isContainer = true) : isLeft F c = true := by
  rw [isLeft_iff]
  rintro s rfl
  simp [isContainer] at h

theorem normalized_append_perm (hC : ∀ c ∈ C, c.isContainer = true) :
    (normalized (A ++ C)).Perm (normalized A ++ C) := by
  have hfilter : (A ++ C).filter (isLeft (A ++ C)) = A.filter (isLeft A) ++ C := by
    rw [isLeft_append_containers hC, List.filter_append,
      List.filter_eq_self.mpr fun c hc => isLeft_container (hC c hc)]
  by_cases hb : BothTruths A
  · rw [normalized_of_bothTruths ((bothTruths_append_containers hC).mpr hb), normalized_of_bothTruths hb, hfilter,
      List.append_assoc, List.append_assoc]
    exact List.perm_append_comm.append_left _
  · rw [normalized_of_not_bothTruths ((bothTruths_append_containers hC).not.mpr hb), normalized_of_not_bothTruths hb,
      hfilter]

theorem pairwise_mergedContainers : (mergedContainers merged F).Pairwise fun a b => same a b = false := by
  have htuples : ((distinctBy (· == ·) ((F.filterMap elements?).map List.length)).map
      (mergedTuple merged (F.filterMap elements?))).Pairwise fun a b => same a b = false := by
    refine List.pairwise_map.mpr ((pairwise_distinctBy _ _).imp fun {k l} hkl => Bool.eq_false_iff.mpr fun hs => ?_)
    rw [mergedTuple_eq, mergedTuple_eq] at hs
    obtain ⟨_, he, hall⟩ := same_tuple_left.mp hs
    have hlen := Ty.tuple.inj he ▸ hall.length_eq
    simp only [List.length_map, List.length_range] at hlen
    simp [hlen] at hkl
  have hif {α : Type} {as : List α} {x y : Ty} : x ∈ (if as.isEmpty then [] else [y]) → x = y := by
    split <;> simp
  refine List.pairwise_append.mpr ⟨List.pairwise_append.mpr ⟨by split <;> simp, by split <;> simp, ?_⟩, htuples, ?_⟩
  · intro a ha b hb
    rw [hif ha, hif hb]
    rfl
  · intro a ha b hb
    obtain ⟨length, _, rfl⟩ := List.mem_map.mp hb
    rcases List.mem_append.mp ha with ha | ha <;> rw [hif ha] <;> rfl

theorem normalized_sublist (F : List Ty) : (normalized F).Sublist (F ++ [boolean]) := by
  by_cases hb : BothTruths F
  · rw [normalized_of_bothTruths hb]
    exact List.filter_sublist.append_right _
  · rw [normalized_of_not_bothTruths hb]
    exact List.filter_sublist.trans (List.sublist_append_left _ _)

section

variable (wf : ∀ t ∈ ts, t.WellFormed)

include wf

theorem loose_flat {x : Ty} (hx : x ∈ loose (ts.flatMap byName)) : x ∈ ts.flatMap byName ∧ x.isContainer = false := by
  obtain ⟨m, hm, hxm⟩ := List.mem_flatMap.mp hx
  obtain ⟨hm, hc⟩ := List.mem_filter.mp hm
  obtain ⟨t, ht, hmt⟩ := List.mem_flatMap.mp hm
  obtain ⟨rfl, _⟩ := (mem_parts_of_not_oneOf (isOneOf_members (wf t ht) (mem_byName.mp hmt))).mp hxm
  exact ⟨hm, by simpa using hc⟩

theorem parts_merged (hu : .unknown ∉ ts) : parts (merged ts) =
    normalized (distinctBy same (loose (ts.flatMap byName)) ++ mergedContainers merged (ts.flatMap byName)) := by
  have hC : ∀ c ∈ mergedContainers merged (ts.flatMap byName), c.isContainer = true :=
    fun c => isContainer_mergedContainers
  have hunknown : ¬ Found (((ts.flatMap byName).filter (fun t => !t.isContainer) ++
      mergedContainers merged (ts.flatMap byName)).flatMap parts) .unknown := fun hf =>
    hu ((merged_eq_unknown_iff wf).mp ((merged_eq ts).trans (union_of_unknown hf)))
  have hapart : (mergedContainers merged (ts.flatMap byName)).filter
      (fun c => !(loose (ts.flatMap byName)).any (same · c)) = mergedContainers merged (ts.flatMap byName) := by
    refine List.filter_eq_self.mpr fun c hc => ?_
    rw [Bool.not_eq_true', List.any_eq_false]
    intro x hx hs
    simpa [isContainer_of_same hs, hC c hc] using (loose_flat wf hx).2
  rw [merged_eq, parts_union (wellFormed_kinds wf) hunknown, List.flatMap_append, flatMap_parts_containers hC, ← loose,
    distinctBy_append, distinctBy_of_pairwise pairwise_mergedContainers, hapart]

theorem ranked_merged : Ranked (parts (merged ts)) := by
  constructor
  · intro m hm
    rcases (wellFormed_parts (wellFormed_merged wf) hm).2 with rfl | hm
    · rfl
    · exact isOneOf_of_alternative hm
  · by_cases hu : .unknown ∈ ts
    · rw [(merged_eq_unknown_iff wf).mpr hu]
      exact List.pairwise_singleton _ _
    · have hloose : ∀ a ∈ distinctBy same (loose (ts.flatMap byName)), a.isContainer = false :=
        fun a ha => (loose_flat wf (mem_of_mem_distinctBy ha)).2
      have hrest : ∀ b ∈ mergedContainers merged (ts.flatMap byName) ++ [boolean], b.isFunction = false := by
        rw [List.forall_mem_append, List.forall_mem_singleton]
        exact ⟨fun c hc => isFunction_container (isContainer_mergedContainers hc), rfl⟩
      rw [parts_merged wf hu]
      refine List.Pairwise.sublist (normalized_sublist _) ?_
      rw [List.append_assoc, List.pairwise_append]
      refine ⟨List.pairwise_of_forall_mem_list fun a ha b hb _ => hloose a ha,
        List.pairwise_of_forall_mem_list fun a ha b hb hf => ?_, fun a ha b hb _ => hloose a ha⟩
      rw [hrest b hb] at hf
      cases hf

end

theorem label?_container (ht : t.isContainer = true) (hu : u.isContainer = true) (hn : name? t = name? u) :
    label? t = label? u := by
  cases t <;> cases u <;> simp_all [label?, Label.ofNamed, isContainer, isFunction, isPrimitive]

theorem label?_of_same (hs : same t u = true) (hn : name? t = name? u) : label? t = label? u := by
  have hf : t.isFunction = u.isFunction := by cases t <;> cases u <;> simp_all [same, isFunction]
  have hp : t.isPrimitive .undefined = u.isPrimitive .undefined := by cases t <;> cases u <;> simp_all [same, isPrimitive]
  simp only [label?, Label.ofNamed, hn, hf, hp]

theorem labels_normalized (h : A.Perm B)
    (alike : ∀ x ∈ B, ∀ y ∈ B, isLeft B x = true → same x y = true → name? x = name? y) :
    ((normalized (distinctBy same A)).map label?).Perm ((normalized (distinctBy same B)).map label?) := by
  -- what is left depends on the primitives that are kept, and those do not depend on the order
  have hkept (x : Ty) : Kept (distinctBy same A) x ↔ Kept B x :=
    (kept_distinctBy A x).trans (kept_congr (fun y => by simp only [Found, h.mem_iff]) x)
  have hleft : isLeft (distinctBy same A) = isLeft B := isLeft_congr hkept
  have hleft' : isLeft (distinctBy same B) = isLeft B := isLeft_congr (kept_distinctBy B)
  have hboth : BothTruths (distinctBy same A) ↔ BothTruths (distinctBy same B) := by
    rw [bothTruths_iff, bothTruths_iff, hkept, kept_distinctBy, boolean_mem_distinctBy, boolean_mem_distinctBy, h.mem_iff]
  have hfilter : (((distinctBy same A).filter (isLeft B)).map label?).Perm
      (((distinctBy same B).filter (isLeft B)).map label?) := by
    have hcongr (x y : Ty) (hs : same x y = true) : isLeft B x = isLeft B y := isLeft_of_same hs
    rw [filter_distinctBy hcongr, filter_distinctBy hcongr]
    apply perm_map_distinctBy same same_symm same_trans (h.filter _)
    intro x hx y hy hs
    obtain ⟨hx, hl⟩ := List.mem_filter.mp hx
    obtain ⟨hy, _⟩ := List.mem_filter.mp hy
    exact label?_of_same hs (alike x (h.mem_iff.mp hx) y (h.mem_iff.mp hy) hl hs)
  by_cases hb : BothTruths (distinctBy same B)
  · rw [normalized_of_bothTruths hb, normalized_of_bothTruths (hboth.mpr hb), hleft, hleft', List.map_append,
      List.map_append]
    exact hfilter.append_right _
  · rw [normalized_of_not_bothTruths hb, normalized_of_not_bothTruths (hboth.not.mpr hb), hleft, hleft']
    exact hfilter

theorem wellFormed_mergedField (wf : ∀ t ∈ F, t.WellFormed) {key : String}
    (hk : key ∈ fieldKeys (F.filterMap fields?)) : (mergedField merged (F.filterMap fields?) key).WellFormed := by
  have hw := wellFormed_merged (every_nested wf (mem_nested_present hk))
  rcases mergedField_cases merged (F.filterMap fields?) key with h | h <;> rw [h]
  · exact hw
  · exact wellFormed_union (by simpa [undefined] using hw)

theorem fieldKeys_perm {xs ys : List (List (String × Ty))} (h : xs.Perm ys) : fieldKeys xs = fieldKeys ys := by
  apply eq_of_increasing (increasing_fieldKeys _) (increasing_fieldKeys _)
  intro key
  simp only [mem_fieldKeys, h.mem_iff]

theorem undefined_mem_iff : undefined ∈ A ↔ some ⟨"undefined", false, true⟩ ∈ A.map label? := by
  rw [List.mem_map]
  constructor
  · exact fun h => ⟨undefined, h, rfl⟩
  · rintro ⟨m, hm, hl⟩
    obtain ⟨n, _, he⟩ := Option.map_eq_some_iff.mp hl
    have hp : m.isPrimitive .undefined = true := congrArg Label.absent he
    obtain rfl := isPrimitive_iff.mp hp
    exact hm

theorem Twin.union_undefined (h : Twin t u) (ht : t.WellFormed) (hu : u.WellFormed) (hn : t = .unknown ↔ u = .unknown) :
    Twin (union [t, undefined]) (union [u, undefined]) := by
  have hmem : undefined ∈ parts t ↔ undefined ∈ parts u := by
    rw [undefined_mem_iff, undefined_mem_iff, h.labels.mem_iff]
  have hranked {ms : List Ty} (hr : Ranked ms) : Ranked (ms ++ [undefined]) := by
    constructor
    · exact List.forall_mem_append.mpr ⟨hr.flat, List.forall_mem_singleton.mpr rfl⟩
    · refine List.pairwise_append.mpr ⟨hr.ordered, List.pairwise_singleton _ _, fun a _ b hb hf => ?_⟩
      obtain rfl := List.mem_singleton.mp hb
      cases hf
  -- `unknown` absorbs the marker, and an optional type has it already
  by_cases hk : t = .unknown
  · rw [hk, hn.mp hk] at h ⊢
    exact h
  · have hk' := hn.not.mp hk
    by_cases hm : undefined ∈ parts t
    · rwa [union_undefined_of_mem ht hm, union_undefined_of_mem hu (hmem.mp hm)]
    · have hm' := hmem.not.mp hm
      constructor
      · rw [parts_union_undefined ht hk hm, parts_union_undefined hu hk' hm', List.map_append, List.map_append]
        exact h.labels.append_right _
      · rw [parts_union_undefined ht hk hm]
        exact hranked h.left
      · rw [parts_union_undefined hu hk' hm']
        exact hranked h.right

inductive SpelledAlike : List Ty → Prop
  | unknown {ts : List Ty} (h : .unknown ∈ ts) : SpelledAlike ts
  | places {ts : List Ty} (here : ∀ x ∈ loose (ts.flatMap byName), ∀ y ∈ loose (ts.flatMap byName),
        isLeft (loose (ts.flatMap byName)) x = true → same x y = true → name? x = name? y)
      (inside : ∀ L ∈ nested (ts.flatMap byName), SpelledAlike L) : SpelledAlike ts

section

variable (h : G.Perm F) (wf : ∀ t ∈ F, t.WellFormed)
  (ih : ∀ L ∈ nested F, ∀ M, M.Perm L → Twin (merged M) (merged L))

include h wf ih

theorem twin_mergedField {key : String} (hk : key ∈ fieldKeys (F.filterMap fields?)) :
    Twin (mergedField merged (G.filterMap fields?) key) (mergedField merged (F.filterMap fields?) key) := by
  have hobjects := h.filterMap fields?
  have hpresent := hobjects.filterMap (Bindings.get? key)
  have hF := every_nested wf (mem_nested_present hk)
  have hG : ∀ t ∈ (G.filterMap fields?).filterMap (Bindings.get? key), t.WellFormed :=
    fun t ht => hF t (hpresent.mem_iff.mp ht)
  have htwin := ih _ (mem_nested_present hk) _ hpresent
  simp only [mergedField, hobjects.length_eq, hpresent.length_eq]
  split
  · apply htwin.union_undefined (wellFormed_merged hG) (wellFormed_merged hF)
    rw [merged_eq_unknown_iff hG, merged_eq_unknown_iff hF, hpresent.mem_iff]
  · exact htwin

theorem name?_mergedObject :
    name? (mergedObject merged (G.filterMap fields?)) = name? (mergedObject merged (F.filterMap fields?)) := by
  have hobjects := h.filterMap fields?
  have wg : ∀ t ∈ G, t.WellFormed := fun t ht => wf t (h.mem_iff.mp ht)
  rw [mergedObject, mergedObject, fieldKeys_perm hobjects]
  apply name?_object_congr
  · exact fun key hk => wellFormed_mergedField wg (fieldKeys_perm hobjects ▸ hk)
  · exact fun key hk => wellFormed_mergedField wf hk
  · exact fun key hk => twin_mergedField h wf ih hk

theorem name?_mergedArray (ha : F.filterMap element? ≠ []) :
    name? (.array (merged (G.filterMap element?))) = name? (.array (merged (F.filterMap element?))) := by
  have helements := h.filterMap element?
  have hF := every_nested wf (mem_nested_elements ha)
  apply (ih _ (mem_nested_elements ha) _ helements).name?_array
  · exact wellFormed_merged fun t ht => hF t (helements.mem_iff.mp ht)
  · exact wellFormed_merged hF

omit wf in
theorem name?_mergedTuple {es : List Ty} (he : .tuple es ∈ F) :
    name? (mergedTuple merged (G.filterMap elements?) es.length) =
      name? (mergedTuple merged (F.filterMap elements?) es.length) := by
  have htuples := (h.filterMap elements?).filter (·.length == es.length)
  have hnames : names? ((columns es.length ((G.filterMap elements?).filter (·.length == es.length))).map merged) =
      names? ((columns es.length ((F.filterMap elements?).filter (·.length == es.length))).map merged) := by
    rw [columns, columns, List.map_map, List.map_map]
    apply names?_congr
    intro i hi
    have hcolumn := mem_nested_columns he (mem_columns.mpr ⟨i, List.mem_range.mp hi, rfl⟩)
    exact (ih _ hcolumn _ (htuples.filterMap _)).name?_eq
  rw [mergedTuple, mergedTuple, name?, name?, hnames]

theorem labels_mergedContainers :
    ((mergedContainers merged G).map label?).Perm ((mergedContainers merged F).map label?) := by
  have hobject : label? (mergedObject merged (G.filterMap fields?)) = label? (mergedObject merged (F.filterMap fields?)) :=
    label?_container rfl rfl (name?_mergedObject h wf ih)
  have harray (ha : ¬ (F.filterMap element?).isEmpty = true) :
      label? (.array (merged (G.filterMap element?))) = label? (.array (merged (F.filterMap element?))) :=
    label?_container rfl rfl (name?_mergedArray h wf ih (by simpa using ha))
  have htuple {length : Nat} (hl : length ∈ distinctBy (· == ·) ((F.filterMap elements?).map List.length)) :
      label? (mergedTuple merged (G.filterMap elements?) length) =
        label? (mergedTuple merged (F.filterMap elements?) length) := by
    obtain ⟨es, hes, rfl⟩ := mem_lengths.mp hl
    exact label?_container rfl rfl (name?_mergedTuple h ih (mem_elements.mp hes))
  have hnodup (E : List Ty) : (distinctBy (· == ·) ((E.filterMap elements?).map List.length)).Nodup :=
    (pairwise_distinctBy _ _).imp fun h => by simpa using h
  have hlengths : (distinctBy (· == ·) ((G.filterMap elements?).map List.length)).Perm
      (distinctBy (· == ·) ((F.filterMap elements?).map List.length)) := by
    rw [List.perm_ext_iff_of_nodup (hnodup G) (hnodup F)]
    intro n
    simp only [mem_lengths, (h.filterMap elements?).mem_iff]
  simp only [mergedContainers, List.map_append, (h.filterMap fields?).isEmpty_eq, (h.filterMap element?).isEmpty_eq]
  refine List.Perm.append (List.Perm.append (.of_eq ?_) (.of_eq ?_)) ?_
  · split
    · rfl
    · rw [List.map_singleton, List.map_singleton, hobject]
  · split
    · rfl
    · next ha => rw [List.map_singleton, List.map_singleton, harray ha]
  · rw [List.map_map, List.map_map]
    refine (hlengths.map _).trans (.of_eq (List.map_congr_left fun length hl => ?_))
    exact htuple hl

end

theorem twin_merged (hs : SpelledAlike ts) (wf : ∀ t ∈ ts, t.WellFormed) (h : us.Perm ts) :
    Twin (merged us) (merged ts) := by
  induction hs generalizing us with
  | @unknown ts hu =>
    have wu : ∀ t ∈ us, t.WellFormed := fun t ht => wf t (h.mem_iff.mp ht)
    have hranked := ranked_merged wf
    rw [(merged_eq_unknown_iff wu).mpr (h.mem_iff.mpr hu)]
    rw [(merged_eq_unknown_iff wf).mpr hu] at hranked ⊢
    exact ⟨.refl _, hranked, hranked⟩
  | @places ts here inside ih =>
    have wu : ∀ t ∈ us, t.WellFormed := fun t ht => wf t (h.mem_iff.mp ht)
    refine ⟨?_, ranked_merged wu, ranked_merged wf⟩
    by_cases hu : .unknown ∈ ts
    · rw [(merged_eq_unknown_iff wu).mpr (h.mem_iff.mpr hu), (merged_eq_unknown_iff wf).mpr hu]
    have hflat : (us.flatMap byName).Perm (ts.flatMap byName) := h.flatMap_right _
    have hloose : (loose (us.flatMap byName)).Perm (loose (ts.flatMap byName)) := (hflat.filter _).flatMap_right _
    have hnested (L : List Ty) (hL : L ∈ nested (ts.flatMap byName)) (M : List Ty) (hM : M.Perm L) :
        Twin (merged M) (merged L) := ih L hL (every_nested (every_flat wf) hL) hM
    -- containers pass through the normal form, so they and the rest are compared apart
    have hlabels := (labels_normalized hloose here).append (labels_mergedContainers hflat (every_flat wf) hnested)
    have hperm (vs : List Ty) : (normalized (distinctBy same (loose (vs.flatMap byName)) ++
        mergedContainers merged (vs.flatMap byName))).Perm
        (normalized (distinctBy same (loose (vs.flatMap byName))) ++ mergedContainers merged (vs.flatMap byName)) :=
      normalized_append_perm fun c => isContainer_mergedContainers
    rw [← List.map_append, ← List.map_append] at hlabels
    rw [parts_merged wu (h.mem_iff.not.mpr hu), parts_merged wf hu]
    exact ((hperm us).map label?).trans (hlabels.trans ((hperm ts).map label?).symm)

/-- What equals the type is written like it: functions may differ inside, and floats equal integers. An ordinary merge
replaces floats by their primitive. -/
def hasOneSpelling (exact : Bool) : Ty → Bool
  | .function .. => false
  | .literal (.number (.float _)) => !exact
  | _ => true

def OneSpelling (exact : Bool) (t : Ty) : Prop := t.every false (hasOneSpelling exact) = true

instance (exact : Bool) (t : Ty) : Decidable (t.OneSpelling exact) := inferInstanceAs (Decidable (_ = true))

theorem name?_literal_of_same {a b : Scalar} (ha : hasOneSpelling true (.literal a) = true)
    (hb : hasOneSpelling true (.literal b) = true) (h : a.same b = true) : a.text? = b.text? := by
  cases a with
  | number x =>
    cases b with
    | number y =>
      cases x <;> cases y <;>
        simp_all [hasOneSpelling, Scalar.same, Number.same, Number.equal, Scalar.text?, Number.exact, Exact.same]
    | _ => simp [Scalar.same] at h
  | _ => cases b <;> simp_all [Scalar.same]

theorem oneSpelling_widen (h : t.OneSpelling false) : (widen t).OneSpelling true := by
  induction t using induct with
  | oneOf ms ih =>
    rw [widen, widenAll_eq_map]
    refine union_of_parts (fun u hu m hm => ?_) rfl rfl fun ns hn => every_iff.mpr ⟨rfl, hn⟩
    obtain ⟨n, hn, rfl⟩ := List.mem_map.mp hu
    exact every_members (ih n hn (every_inside h rfl hn)) (parts_subset_members _ hm)
  | object fs ih =>
    refine (every_widen_iff rfl rfl).mpr ⟨rfl, List.forall_mem_map.mpr fun f hf => ?_⟩
    exact ih f hf (every_inside h rfl (List.mem_map_of_mem hf))
  | array e ih =>
    refine (every_widen_iff rfl rfl).mpr ⟨rfl, List.forall_mem_singleton.mpr ?_⟩
    exact ih (every_inside h rfl (by simp [children]))
  | tuple es ih => exact (every_widen_iff rfl rfl).mpr ⟨rfl, fun e he => ih e he (every_inside h rfl he)⟩
  | function ps r => simp [OneSpelling, every, hasOneSpelling] at h
  | literal s => rfl
  | _ => exact h

theorem oneSpelling_prepared {exact : Bool} (h : t.OneSpelling exact) : (prepared exact t).OneSpelling true := by
  cases exact with
  | false => exact oneSpelling_widen h
  | true => exact h

theorem name?_of_oneSpelling (ht : t.OneSpelling true) (hu : u.OneSpelling true) (hone : t.isOneOf = false)
    (hc : t.isContainer = false) (h : same t u = true) : name? t = name? u := by
  cases t with
  | literal a =>
    obtain ⟨b, rfl, hab⟩ := same_literal_left.mp h
    exact name?_literal_of_same ht hu hab
  | function ps r => simp [OneSpelling, every, hasOneSpelling] at ht
  | oneOf ms => simp [isOneOf] at hone
  | object fs => simp [isContainer] at hc
  | array e => simp [isContainer] at hc
  | tuple es => simp [isContainer] at hc
  | _ => cases u <;> simp_all [same]

theorem spelledAlike_to_depth {n : Nat} (wf : ∀ t ∈ ts, t.WellFormed) (h : ∀ t ∈ ts, t.OneSpelling true)
    (dt : ∀ t ∈ ts, depth t < n) : SpelledAlike ts := by
  induction n generalizing ts with
  | zero =>
    obtain rfl := eq_nil_of_depth dt
    exact .places (by simp [loose]) fun L hL => by cases hL
  | succ n ih =>
    apply SpelledAlike.places
    · intro x hx y hy _ hs
      obtain ⟨hxf, hxc⟩ := loose_flat wf hx
      obtain ⟨t, ht, hxt⟩ := List.mem_flatMap.mp hxf
      have hone := isOneOf_members (wf t ht) (mem_byName.mp hxt)
      exact name?_of_oneSpelling (every_flat h x hxf) (every_flat h y (loose_flat wf hy).1) hone hxc hs
    · intro L hL
      apply ih (every_nested (every_flat wf) hL) (every_nested (every_flat h) hL)
      intro t ht
      obtain ⟨c, hc, hcc, htc⟩ := child_of_mem_nested hL ht
      have hlt := depth_child hcc htc
      have hle := depth_flat (fun t ht => Nat.le_of_lt_succ (dt t ht)) c hc
      omega

theorem spelledAlike_of_oneSpelling (wf : ∀ t ∈ ts, t.WellFormed) (h : ∀ t ∈ ts, t.OneSpelling true) :
    SpelledAlike ts :=
  spelledAlike_to_depth wf h fun t ht => Nat.lt_succ_of_le (depthAll_le.mp le_rfl t ht)

theorem merge?_isSome_perm (exact : Bool) (wf : ∀ t ∈ ts, t.WellFormed) (h : us.Perm ts) :
    (merge? exact us).isSome = (merge? exact ts).isSome := by
  have wu : ∀ t ∈ us, t.WellFormed := fun t ht => wf t (h.mem_iff.mp ht)
  simp only [merge?_eq_ite wf, merge?_eq_ite wu, h.mem_iff]
  split <;> rfl

theorem merge?_name?_perm {exact : Bool} (wf : ∀ t ∈ ts, t.WellFormed) (hs : SpelledAlike (ts.map (prepared exact)))
    (h : us.Perm ts) : (merge? exact us).map name? = (merge? exact ts).map name? := by
  have wu : ∀ t ∈ us, t.WellFormed := fun t ht => wf t (h.mem_iff.mp ht)
  have hname : name? (mergedAs exact us) = name? (mergedAs exact ts) := by
    have hprepared : ∀ t ∈ ts.map (prepared exact), t.WellFormed :=
      List.forall_mem_map.mpr fun t ht => wellFormed_prepared (wf t ht)
    exact (twin_merged hs hprepared (h.map _)).name?_eq
  simp only [merge?_eq_ite wf, merge?_eq_ite wu, h.mem_iff]
  split
  · rw [Option.map_some, Option.map_some, hname]
  · rfl

end Casewise.Ty
