import Casewise.Proofs.MergeWidening

namespace Casewise.Ty

variable {ts : List Ty} {t : Ty}

theorem wellFormed_kinds (wf : ∀ t ∈ ts, t.WellFormed) : ∀ t ∈ (ts.flatMap byName).filter (fun t => !t.isContainer) ++
    mergedContainers merged (ts.flatMap byName), t.WellFormed := by
  rw [List.forall_mem_append]
  constructor
  · exact fun t ht => every_flat wf t (List.mem_filter.mp ht).1
  · exact wellFormed_mergedContainers fun L hL => wellFormed_merged (every_nested (every_flat wf) hL)

theorem unknown_mem_members (h : t.WellFormed) : .unknown ∈ t.members ↔ t = .unknown := by
  cases t with
  | oneOf ms => exact unknown_mem_parts h
  | _ => simp [members]

theorem merged_eq_unknown_iff (wf : ∀ t ∈ ts, t.WellFormed) : merged ts = .unknown ↔ .unknown ∈ ts := by
  rw [merged_eq, union_eq_unknown_iff (wellFormed_kinds wf), List.mem_append, List.mem_filter, List.mem_flatMap]
  constructor
  · rintro (⟨⟨t, ht, hm⟩, _⟩ | hc)
    · exact (unknown_mem_members (wf t ht)).mp (mem_byName.mp hm) ▸ ht
    · simpa [isContainer] using isContainer_mergedContainers hc
  · exact fun h => .inl ⟨⟨.unknown, h, mem_byName.mpr (by simp [members])⟩, rfl⟩

theorem widen_eq_unknown_iff (h : t.WellFormed) : widen t = .unknown ↔ t = .unknown := by
  cases t with
  | oneOf ms =>
    obtain ⟨⟨_, hr⟩, hw⟩ := wellFormed_oneOf.mp h
    have hwide : ∀ m ∈ ms.map widen, m.WellFormed := List.forall_mem_map.mpr fun m hm => wellFormed_widen (hw m hm)
    rw [widen, widenAll_eq_map, union_eq_unknown_iff hwide]
    refine iff_of_false (fun hm => ?_) (by simp)
    simpa [isAlternative] using plain_map_widen hr.plain _ hm
  | _ => simp [widen]

theorem prepared_eq_unknown_iff {exact : Bool} (h : t.WellFormed) : prepared exact t = .unknown ↔ t = .unknown := by
  cases exact with
  | false => exact widen_eq_unknown_iff h
  | true => rfl

section

variable {objects : List (List (String × Ty))} {key : String}

theorem merged_objects (h : objects ≠ []) : merged (objects.map .object) = mergedObject merged objects := by
  have hflat : (objects.map Ty.object).flatMap byName = objects.map .object := by
    simp [List.flatMap_map, byName, sortedMembers?, ← List.map_eq_flatMap]
  have hfields : (objects.map Ty.object).filterMap fields? = objects := by
    simp [List.filterMap_map, Function.comp_def, fields?]
  have harrays : (objects.map Ty.object).filterMap element? = [] := by simp [element?]
  have htuples : (objects.map Ty.object).filterMap elements? = [] := by simp [elements?]
  have hloose : (objects.map Ty.object).filter (fun t => !t.isContainer) = [] := by simp [isContainer]
  have hcontainers : mergedContainers merged (objects.map .object) = [mergedObject merged objects] := by
    simp [mergedContainers, hfields, harrays, htuples, h, distinctBy]
  rw [merged_eq, hflat, hloose, hcontainers]
  rfl

theorem mergedField_of_lacking (merge : List Ty → Ty) (h : ∃ fs ∈ objects, Bindings.get? key fs = none) :
    mergedField merge objects key = union [merge (objects.filterMap (Bindings.get? key)), undefined] := by
  apply if_pos
  rw [(List.length_filterMap_le _ _).lt_iff_ne, ne_eq, List.filterMap_length_eq_length]
  push Not
  obtain ⟨fs, hfs, hk⟩ := h
  exact ⟨fs, hfs, by simp [hk]⟩

theorem inward_prepared (exact : Bool) : Inward (prepared exact) := by
  cases exact with
  | false => exact inward_widen
  | true => exact ⟨fun fs => by simp [prepared], fun _ => rfl, fun es => congrArg Ty.tuple (List.map_id es).symm⟩

theorem mergedAs_objects {exact : Bool} (h : objects ≠ []) : mergedAs exact (objects.map .object) =
    mergedObject merged (objects.map fun fs => fs.map fun f => (f.1, prepared exact f.2)) := by
  have hobject : prepared exact ∘ Ty.object = Ty.object ∘ fun fs => fs.map fun f => (f.1, prepared exact f.2) :=
    funext (inward_prepared exact).object
  rw [mergedAs, List.map_map, hobject, ← List.map_map, merged_objects (by simpa using h)]

theorem get?_mergedAs {exact : Bool} (has : ∃ fs ∈ objects, key ∈ Bindings.names fs)
    (lack : ∃ fs ∈ objects, Bindings.get? key fs = none) :
    ∃ fs, mergedAs exact (objects.map .object) = .object fs ∧ Bindings.get? key fs =
      some (union [merged ((objects.filterMap (Bindings.get? key)).map (prepared exact)), undefined]) := by
  obtain ⟨fs, hfs, hkey⟩ := has
  obtain ⟨gs, hgs, hnone⟩ := lack
  refine ⟨_, mergedAs_objects (List.ne_nil_of_mem hfs), ?_⟩
  have hkeys : key ∈ fieldKeys (objects.map fun fs => fs.map fun f => (f.1, prepared exact f.2)) := by
    rw [mem_fieldKeys]
    exact ⟨_, List.mem_map_of_mem hfs, by simpa [Bindings.names, Function.comp_def] using hkey⟩
  have hlack : ∃ ks ∈ objects.map fun fs => fs.map fun f => (f.1, prepared exact f.2), Bindings.get? key ks = none :=
    ⟨_, List.mem_map_of_mem hgs, by rw [Bindings.get?_mapValues, hnone]; rfl⟩
  rw [Bindings.get?_map, if_pos hkeys, mergedField_of_lacking merged hlack, List.filterMap_map, List.map_filterMap]
  simp only [Function.comp_def, Bindings.get?_mapValues]

theorem unknown_mem_merged_present (exact : Bool) (key : String) (wf : ∀ fs ∈ objects, (object fs).WellFormed) :
    .unknown ∈ parts (merged ((objects.filterMap (Bindings.get? key)).map (prepared exact))) ↔
      ∃ fs ∈ objects, Bindings.get? key fs = some .unknown := by
  have hpresent : ∀ u ∈ objects.filterMap (Bindings.get? key), u.WellFormed := by
    intro u hu
    obtain ⟨fs, hfs, hk⟩ := mem_present.mp hu
    exact (wellFormed_object.mp (wf fs hfs)).2 _ (Bindings.mem_of_get? hk)
  have hprepared : ∀ u ∈ (objects.filterMap (Bindings.get? key)).map (prepared exact), u.WellFormed :=
    List.forall_mem_map.mpr fun u hu => wellFormed_prepared (hpresent u hu)
  rw [unknown_mem_parts (wellFormed_merged hprepared), merged_eq_unknown_iff hprepared, ← mem_present, List.mem_map]
  constructor
  · rintro ⟨u, hu, he⟩
    exact (prepared_eq_unknown_iff (hpresent u hu)).mp he ▸ hu
  · exact fun h => ⟨_, h, (prepared_eq_unknown_iff wellFormed_unknown).mpr rfl⟩

theorem assignable_of_lacking {fs : List (String × Ty)} (h : key ∉ Bindings.names fs) :
    assignable (.object fs) (.object [(key, t)]) = t.isOptional := by
  simp [assignable, members, fieldAssignable_eq, Bindings.get?_eq_none_iff.mpr h]

end

/-- A field that some objects have and some lack is optional in their merged object, and the objects that lack it fit
there, exactly if no object has it with type `unknown`. -/
theorem missing_field_is_optional (exact : Bool) (objects : List (List (String × Ty))) (key : String)
    (wf : ∀ fs ∈ objects, (object fs).WellFormed) (has : ∃ fs ∈ objects, key ∈ Bindings.names fs)
    (lack : ∃ fs ∈ objects, key ∉ Bindings.names fs) :
    (∀ m, merge? exact (objects.map .object) = some m → ∃ fs t, m = .object fs ∧ Bindings.get? key fs = some t ∧
      (t.isOptional = true ↔ ∀ gs ∈ objects, Bindings.get? key gs ≠ some .unknown) ∧
      ((∀ gs ∈ objects, key ∉ Bindings.names gs → assignable (.object gs) (.object [(key, t)]) = true) ↔
        ∀ gs ∈ objects, Bindings.get? key gs ≠ some .unknown)) ∧
    ((merge? exact (objects.map .object)).isSome = true ↔ ∀ fs ∈ objects, (prepared exact (.object fs)).Mergeable) ∧
    ((∀ fs ∈ objects, (object fs).Printable) → (merge? exact (objects.map .object)).isSome = true) := by
  have hsome : (merge? exact (objects.map .object)).isSome = true ↔
      ∀ fs ∈ objects, (prepared exact (.object fs)).Mergeable := by
    simp [merge?_eq_ite (List.forall_mem_map.mpr wf)]
  refine ⟨fun m hm => ?_, hsome, fun hp => hsome.mpr fun fs hfs => ?_⟩
  · obtain ⟨fs, hobject, hfield⟩ := get?_mergedAs has (by simpa only [Bindings.get?_eq_none_iff] using lack)
    have hoptional := (isOptional_union_undefined _).trans (unknown_mem_merged_present exact key wf).not
    push Not at hoptional
    refine ⟨fs, _, (eq_mergedAs_of_merge? hm).trans hobject, hfield, hoptional, ?_⟩
    rw [← hoptional]
    constructor
    · intro h
      obtain ⟨gs, hgs, hk⟩ := lack
      exact (assignable_of_lacking hk).symm.trans (h gs hgs hk)
    · exact fun h gs _ hk => (assignable_of_lacking hk).trans h
  · exact mergeable_of_printable (every_prepared onLeaves_hasText (wf fs hfs) (hp fs hfs))

theorem missing_array_field_is_optional :
    ∃ fs t, merge? false [.object [("a", .array .unknown), ("b", int 1)], .object [("b", text "x")]] = some (.object fs) ∧
      Bindings.get? "a" fs = some t ∧ t.isOptional = true := by
  have h := missing_field_is_optional false [[("a", .array .unknown), ("b", int 1)], [("b", text "x")]] "a" (by decide)
    (by decide) (by decide)
  obtain ⟨m, hm⟩ := Option.isSome_iff_exists.mp (h.2.2 (by decide +kernel))
  obtain ⟨fs, t, rfl, ht, ho, _⟩ := h.1 m hm
  exact ⟨fs, t, hm, ht, ho.mpr (by simp [Bindings.get?])⟩

-- `unknown` absorbs the absent marker, and then an object without the field does not fit
example : (merge? true [.object [("a", .unknown)], .object []]).any (assignable (.object [])) = false := by
  decide +kernel

end Casewise.Ty
