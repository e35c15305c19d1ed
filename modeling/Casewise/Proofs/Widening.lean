import Casewise.Proofs.MergeWidening

namespace Casewise.Ty

variable {a b t x : Ty} {ms : List Ty}

theorem found_widen_of_mem (h : (oneOf ms).Proper) {m : Ty} (hm : m ∈ ms) :
    Found (parts (widen (.oneOf ms))) (widen m) := by
  rw [found_parts_widen h.wellFormed]
  exact found_of_mem (List.mem_map_of_mem hm) (proper_widen (h.child hm)).self

theorem assignable_widen_oneOf (h : (oneOf ms).Proper) {m : Ty} (hm : m ∈ ms) (hx : isAlternative x = true)
    (hxm : assignable x (widen m) = true) : assignable x (widen (.oneOf ms)) = true := by
  obtain ⟨u, hu, hmu⟩ := found_widen_of_mem h hm
  apply assignable_of_mem hx (wellFormed_widen h.wellFormed) (parts_subset_members _ hu)
  exact assignable_of_same_right hmu hxm

theorem isOptional_widen (h : t.Proper) (ho : t.isOptional = true) : (widen t).isOptional = true := by
  simp only [isOptional, List.any_eq_true, isPrimitive_iff] at ho ⊢
  obtain ⟨m, hm, rfl⟩ := ho
  cases t with
  | oneOf ms =>
    obtain ⟨u, hu, hs⟩ := found_widen_of_mem h hm
    exact ⟨u, parts_subset_members _ hu, same_primitive_left.mp hs⟩
  | _ =>
    rw [← List.mem_singleton.mp hm]
    exact ⟨_, List.mem_singleton_self _, rfl⟩

theorem assignable_widen (h : t.Proper) : assignable t (widen t) = true := by
  induction t using induct with
  | literal s => exact assignable_literal_primitive s
  | oneOf ms ih =>
    rw [assignable_oneOf_iff h.wellFormed (wellFormed_widen h.wellFormed)]
    intro m hm
    have hp := (wellFormed_oneOf.mp h.wellFormed).1.2.plain m hm
    exact assignable_widen_oneOf h hm hp (ih m hm (h.child hm))
  | object fs ih =>
    have hnames := (wellFormed_object.mp h.wellFormed).1
    rw [inward_widen.object]
    simp only [assignable, members, List.any_cons, List.any_nil, Bool.or_false, List.all_eq_true, List.forall_mem_map]
    intro f hf
    rw [fieldAssignable_eq, Bindings.get?_of_mem (hnames.imp ne_of_lt) hf]
    exact ih f hf (h.child (List.mem_map_of_mem hf))
  | array e ih =>
    simpa [widen, assignable, members] using ih (h.child (by simp [children]))
  | tuple es ih =>
    rw [inward_widen.tuple]
    simp only [assignable, members, List.any_cons, List.any_nil, Bool.or_false, eachAssignable_iff,
      List.forall₂_map_right_iff, List.forall₂_same]
    exact fun e he => ih e he (h.child he)
  | _ => exact assignable_of_same h.wellFormed h.self

theorem widen_widen (h : t.WellFormed) : widen (widen t) = widen t :=
  widen_of_literalFree (wellFormed_widen h) (every_widen onLeaves_isNotLiteral h (.inl ⟨rfl, rfl⟩))

theorem assignable_widen_of_members (ha : isAlternative a = true) (hb : b.Proper) (h : assignable a b = true)
    (step : ∀ m : Ty, m.Proper → m.isOneOf = false → m.isUnknown = false → assignable a m = true →
      assignable (widen a) (widen m) = true) : assignable (widen a) (widen b) = true := by
  obtain ⟨m, hm, ham⟩ := (assignable_iff_exists ha fun _ => isOneOf_members hb.wellFormed).mp h
  have hw : assignable (widen a) (widen m) = true := by
    cases hu : m.isUnknown with
    | true =>
      rw [isUnknown_iff.mp hu]
      exact assignable_unknown _
    | false => exact step m (hb.member hm) (isOneOf_members hb.wellFormed hm) hu ham
  cases b with
  | oneOf bs => exact assignable_widen_oneOf hb hm (isAlternative_widen ha) hw
  | _ => exact List.mem_singleton.mp hm ▸ hw

theorem assignable_widen_widen (ha : a.Proper) (hb : b.Proper) (h : assignable a b = true) :
    assignable (widen a) (widen b) = true := by
  induction a using induct generalizing b with
  | primitive p =>
    apply assignable_widen_of_members rfl hb h
    intro m _ hone hu ham
    cases m with
    | primitive q => exact ham
    | _ => simp [assignable, members, isUnknown, isOneOf] at ham hone hu
  | literal s =>
    apply assignable_widen_of_members rfl hb h
    intro m _ hone hu ham
    cases m with
    | primitive q =>
      obtain rfl : s.primitive = q := by simpa [assignable, members] using ham
      exact assignable_of_same rfl (by simp [widen])
    | literal s' =>
      have hs : s.same s' = true := by simpa [assignable, members, isUnknown, same] using ham
      exact assignable_of_same rfl (by simp [widen, Scalar.primitive_of_same hs])
    | _ => simp [assignable, members, isUnknown, isOneOf, same] at ham hone hu
  | oneOf ms ih =>
    rw [assignable_oneOf_iff ha.wellFormed hb.wellFormed] at h
    rw [widen, widenAll_eq_map]
    apply assignable_union _ (wellFormed_widen hb.wellFormed)
    · exact List.forall_mem_map.mpr fun m hm => ih m hm (ha.child hm) hb (h m hm)
    · exact List.forall_mem_map.mpr fun m hm => wellFormed_widen (ha.child hm).wellFormed
  | object fs ih =>
    apply assignable_widen_of_members rfl hb h
    intro m hm hone hu ham
    cases m with
    | object gs =>
      rw [inward_widen.object, inward_widen.object]
      simp only [assignable, members, List.any_cons, List.any_nil, Bool.or_false, List.all_eq_true,
        List.forall_mem_map] at ham ⊢
      intro g hg
      have hgp := hm.child (List.mem_map_of_mem hg)
      have hfield := ham g hg
      rw [fieldAssignable_eq] at hfield
      rw [fieldAssignable_eq, Bindings.get?_mapValues]
      cases hk : Bindings.get? g.1 fs with
      | none => exact isOptional_widen hgp (by simpa [hk] using hfield)
      | some t =>
        have ht := Bindings.mem_of_get? hk
        exact ih _ ht (ha.child (List.mem_map.mpr ⟨_, ht, rfl⟩)) hgp (by simpa [hk] using hfield)
    | _ => simp [assignable, members, isUnknown, isOneOf] at ham hone hu
  | array e ih =>
    apply assignable_widen_of_members rfl hb h
    intro m hm hone hu ham
    cases m with
    | array d =>
      simp only [widen, assignable, members, List.any_cons, List.any_nil, Bool.or_false] at ham ⊢
      exact ih (ha.child (by simp [children])) (hm.child (by simp [children])) ham
    | _ => simp [assignable, members, isUnknown, isOneOf] at ham hone hu
  | tuple es ih =>
    apply assignable_widen_of_members rfl hb h
    intro m hm hone hu ham
    cases m with
    | tuple ds =>
      rw [inward_widen.tuple, inward_widen.tuple]
      simp only [assignable, members, List.any_cons, List.any_nil, Bool.or_false, eachAssignable_iff,
        List.forall₂_map_left_iff, List.forall₂_map_right_iff] at ham ⊢
      obtain ⟨hlen, hz⟩ := List.forall₂_iff_zip.mp ham
      apply List.forall₂_iff_zip.mpr
      refine ⟨hlen, fun {e d} hed => ?_⟩
      obtain ⟨he, hd⟩ := List.of_mem_zip hed
      exact ih e he (ha.child he) (hm.child hd) (hz hed)
    | array d =>
      rw [inward_widen.tuple, inward_widen.array]
      simp only [assignable, members, List.any_cons, List.any_nil, Bool.or_false, allAssignable_iff,
        List.forall_mem_map] at ham ⊢
      intro e he
      exact ih e he (ha.child he) (hm.child (by simp [children])) (ham e he)
    | _ => simp [assignable, members, isUnknown, isOneOf] at ham hone hu
  | function ps r =>
    apply assignable_widen_of_members rfl hb h
    intro m _ hone hu ham
    cases m with
    | function qs s => exact ham
    | _ => simp [assignable, members, isUnknown, isOneOf] at ham hone hu
  | unknown => rfl
  | never => rfl
  | throws e =>
    apply assignable_widen_of_members rfl hb h
    intro m _ hone hu ham
    cases m with
    | throws f => exact ham
    | _ => simp [assignable, members, isUnknown, isOneOf] at ham hone hu

theorem widen_is_closure (a b : Ty) (ts : List Ty) (wa : a.WellFormed) (na : a.NanFree) (wb : b.WellFormed)
    (nb : b.NanFree) (wt : ∀ t ∈ ts, t.WellFormed) (nt : ∀ t ∈ ts, t.NanFree) :
    assignable a (widen a) = true ∧
    widen (widen a) = widen a ∧
    (assignable a b = true → assignable (widen a) (widen b) = true) ∧
    same (widen (union ts)) (union (ts.map widen)) = true :=
  ⟨assignable_widen ⟨wa, na⟩, widen_widen wa, assignable_widen_widen ⟨wa, na⟩ ⟨wb, nb⟩,
    same_widen_union fun t ht => Proper.widens ⟨wt t ht, nt t ht⟩⟩

theorem widen_is_closure_of_objects :
    assignable (widen (.oneOf [int 1, .object [("x", bool true)], .tuple [int 2, text "b"]]))
      (widen (.oneOf [number, .object [("x", boolean), ("y", .oneOf [undefined, int 3])],
        .array (.oneOf [int 2, text "b"])])) = true ∧
    same (widen (union [bool true, .array (int 1), .array (int 2)]))
      (union [boolean, .array number, .array number]) = true := by
  have h := widen_is_closure (.oneOf [int 1, .object [("x", bool true)], .tuple [int 2, text "b"]])
    (.oneOf [number, .object [("x", boolean), ("y", .oneOf [undefined, int 3])], .array (.oneOf [int 2, text "b"])])
    [bool true, .array (int 1), .array (int 2)] (by decide) (by decide) (by decide) (by decide) (by decide) (by decide)
  exact ⟨h.2.2.1 (by decide), h.2.2.2⟩

end Casewise.Ty
