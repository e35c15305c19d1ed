import Casewise.Proofs.Union
import Casewise.Ty.Assignable

namespace Casewise.Ty

theorem allAssignable_iff {ts : List Ty} {e : Ty} : allAssignable ts e = true ↔ ∀ t ∈ ts, assignable t e = true := by
  induction ts with
  | nil => simp [allAssignable]
  | cons t ts ih => simp [allAssignable, ih]

theorem eachAssignable_iff {as bs : List Ty} :
    eachAssignable as bs = true ↔ List.Forall₂ (fun a b => assignable a b = true) as bs := by
  induction as generalizing bs with
  | nil => cases bs <;> simp [eachAssignable]
  | cons a as ih => cases bs <;> simp [eachAssignable, ih]

theorem fieldAssignable_eq (fs : List (String × Ty)) (key : String) (want : Ty) :
    fieldAssignable fs key want = ((Bindings.get? key fs).map fun t => assignable t want).getD want.isOptional := by
  induction fs with
  | nil => rfl
  | cons f fs ih =>
    by_cases h : f.1 = key
    · simp [fieldAssignable, Bindings.get?, h]
    · simp [fieldAssignable, Bindings.get?, h, ih]

theorem assignable_oneOf (ms : List Ty) (e : Ty) : assignable (.oneOf ms) e = true ↔
    (e.isUnknown = true ∨ same (.oneOf ms) e = true) ∨ ∀ m ∈ ms, assignable m e = true := by
  have h : assignable (.oneOf ms) e = (e.isUnknown || same (.oneOf ms) e || allAssignable ms e) := rfl
  rw [h, Bool.or_eq_true, Bool.or_eq_true, allAssignable_iff]

theorem assignable_unknown (t : Ty) : assignable t .unknown = true := by
  cases t <;> rfl

theorem assignable_iff_exists {t e : Ty} (ht : isAlternative t = true) (he : ∀ m ∈ e.members, m.isOneOf = false) :
    assignable t e = true ↔ ∃ m ∈ e.members, assignable t m = true := by
  rw [← List.any_eq_true]
  cases e with
  | oneOf es =>
    have hm (f : Ty → Bool) : es.any f = es.any fun m => m.members.any f := by
      rw [Bool.eq_iff_iff, List.any_eq_true, List.any_eq_true]
      refine exists_congr fun m => and_congr_right fun h => ?_
      simp [members_of_not_oneOf (he m h)]
    cases t with
    | oneOf ts => simp [isAlternative] at ht
    | unknown => simp [isAlternative] at ht
    | never => simp [isAlternative] at ht
    | _ =>
      simp only [assignable, members]
      rw [hm]
      rfl
  | _ => simp [members]

theorem assignable_of_mem {t e m : Ty} (ht : isAlternative t = true) (he : e.WellFormed) (hm : m ∈ e.members)
    (h : assignable t m = true) : assignable t e = true :=
  (assignable_iff_exists ht fun _ => isOneOf_members he).mpr ⟨m, hm, h⟩

def hasIncreasingNames : Ty → Bool
  | .object fs => decide ((Bindings.names fs).Pairwise (· < ·))
  | _ => true

def Keyed (t : Ty) : Prop := t.every true hasIncreasingNames = true

instance (t : Ty) : Decidable t.Keyed := inferInstanceAs (Decidable (_ = true))

theorem keyed_iff {t : Ty} : t.Keyed ↔ hasIncreasingNames t = true ∧ ∀ c ∈ t.children, c.Keyed := every_iff

theorem keyed_object {fs : List (String × Ty)} :
    Keyed (.object fs) ↔ (Bindings.names fs).Pairwise (· < ·) ∧ ∀ f ∈ fs, f.2.Keyed := by
  rw [keyed_iff, children, List.forall_mem_map, hasIncreasingNames, decide_eq_true_eq]

theorem WellFormed.keyed {t : Ty} (h : t.WellFormed) : t.Keyed := by
  induction t using ofChildren with
  | step t ih =>
    obtain ⟨hnormal, hc⟩ := every_iff.mp h
    refine keyed_iff.mpr ⟨?_, fun c hm => ih c hm (hc c hm)⟩
    cases t with
    | object fs => exact hnormal
    | _ => rfl

theorem assignable_of_same_of_keyed {a b : Ty} (ha : a.Keyed) (h : same a b = true) : assignable a b = true := by
  induction a using induct generalizing b with
  | primitive p =>
    obtain rfl := same_primitive_left.mp h
    simp [assignable, members]
  | literal s =>
    obtain ⟨s', rfl, _⟩ := same_literal_left.mp h
    simp [assignable, members, h]
  | oneOf ms _ => exact (assignable_oneOf ms b).mpr (.inl (.inr h))
  | object fs ih =>
    obtain ⟨gs, rfl, hf⟩ := same_object_left.mp h
    obtain ⟨hs, hw⟩ := keyed_object.mp ha
    simp only [assignable, members, List.any_cons, List.any_nil, Bool.or_false, List.all_eq_true]
    intro g hg
    -- the names of fields are distinct, so the partner of a field is the one that is looked up
    obtain ⟨f, hf, hk, hfg⟩ := forall₂_partner hf hg
    have hget : Bindings.get? g.1 fs = some f.2 :=
      Bindings.get?_of_mem (hs.imp ne_of_lt) (by rw [← hk]; exact hf)
    simp [fieldAssignable_eq, hget, ih f hf (hw f hf) hfg]
  | array e ih =>
    obtain ⟨c, rfl, hc⟩ := same_array_left.mp h
    simp [assignable, members, ih (every_child ha (List.mem_singleton_self e)) hc]
  | tuple es ih =>
    obtain ⟨cs, rfl, hc⟩ := same_tuple_left.mp h
    simp only [assignable, members, List.any_cons, List.any_nil, Bool.or_false, eachAssignable_iff]
    exact forall₂_imp_mem hc fun e he _ => ih e he (every_child ha he)
  | function ps r _ _ =>
    obtain ⟨qs, s, rfl, _⟩ := same_function_left.mp h
    simp [assignable, members, h]
  | unknown => rfl
  | never => rfl
  | throws x =>
    obtain rfl := same_throws_left.mp h
    simp [assignable, members]

theorem assignable_of_same {a b : Ty} (ha : a.WellFormed) (h : same a b = true) : assignable a b = true :=
  assignable_of_same_of_keyed ha.keyed h

theorem any_members_imp {f g : Ty → Bool} (hfg : ∀ m, f m = true → g m = true) {e : Ty}
    (h : e.members.any f = true) : e.members.any g = true := by
  rw [List.any_eq_true] at h ⊢
  obtain ⟨m, hm, hf⟩ := h
  exact ⟨m, hm, hfg m hf⟩

theorem assignable_of_same_left {a a' e : Ty} (h : same a a' = true) (hf : assignable a e = true) :
    assignable a' e = true := by
  induction a using induct generalizing a' e with
  | primitive p => exact same_primitive_left.mp h ▸ hf
  | literal s =>
    obtain ⟨s', rfl, hs⟩ := same_literal_left.mp h
    refine any_members_imp (fun m hf => ?_) hf
    cases m with
    | primitive p => simpa [Scalar.primitive_of_same hs] using hf
    | _ =>
      simp only [Bool.or_eq_true] at hf ⊢
      exact hf.imp_right (same_trans (same_symm h))
  | oneOf ms ih =>
    obtain ⟨ns, rfl, hl⟩ := same_oneOf_left.mp h
    rw [assignable_oneOf] at hf ⊢
    rcases hf with (hf | hf) | hf
    · exact .inl (.inl hf)
    · exact .inl (.inr (same_trans (same_symm h) hf))
    · refine .inr fun n hn => ?_
      obtain ⟨m, hm, hmn⟩ := hl.2 n hn
      exact ih m hm hmn (hf m hm)
  | object fs ih =>
    obtain ⟨gs, rfl, hg⟩ := same_object_left.mp h
    refine any_members_imp (fun m hf => ?_) hf
    cases m with
    | object ks =>
      simp only [List.all_eq_true] at hf ⊢
      intro k hk
      have hf := hf k hk
      rw [fieldAssignable_eq] at hf ⊢
      rcases get?_of_same k.1 hg with ⟨h₁, h₂⟩ | ⟨t, u, h₁, h₂, htu⟩
      · simpa [h₁, h₂] using hf
      · simp only [h₁, h₂, Option.map_some, Option.getD_some] at hf ⊢
        exact ih _ (Bindings.mem_of_get? h₁) htu hf
    | _ => exact hf
  | array b ih =>
    obtain ⟨c, rfl, hc⟩ := same_array_left.mp h
    refine any_members_imp (fun m hf => ?_) hf
    cases m with
    | array d => exact ih hc hf
    | _ => exact hf
  | tuple es ih =>
    obtain ⟨cs, rfl, hc⟩ := same_tuple_left.mp h
    refine any_members_imp (fun m hf => ?_) hf
    cases m with
    | tuple ds =>
      rw [eachAssignable_iff] at hf ⊢
      exact forall₂_of_common hc hf fun e he _ _ => ih e he
    | array d =>
      rw [allAssignable_iff] at hf ⊢
      intro c hc'
      obtain ⟨b, hb, hbc⟩ := forall₂_partner hc hc'
      exact ih b hb hbc (hf b hb)
    | _ => exact hf
  | function ps r _ ih =>
    obtain ⟨qs, s, rfl, hp, hr⟩ := same_function_left.mp h
    refine any_members_imp (fun m hf => ?_) hf
    cases m with
    | function qs' s' =>
      simp only [Bool.or_eq_true, Bool.and_eq_true, beq_iff_eq] at hf ⊢
      rcases hf with hf | ⟨hl, hf⟩
      · exact .inl (same_trans (same_symm h) hf)
      · exact .inr ⟨hp.length_eq ▸ hl, ih hr hf⟩
    | _ => exact hf
  | unknown => exact same_unknown_left.mp h ▸ hf
  | never => exact same_never_left.mp h ▸ hf
  | throws x => exact same_throws_left.mp h ▸ hf

theorem any_members_of_same {f : Ty → Bool} (hf : ∀ m m', same m m' = true → f m = true → f m' = true)
    {e e' : Ty} (h : same e e' = true) (ha : e.members.any f = true) : e'.members.any f = true := by
  rw [List.any_eq_true] at ha ⊢
  obtain ⟨m, hm, hfm⟩ := ha
  obtain ⟨m', hm', hs⟩ := (like_members h).1 m hm
  exact ⟨m', hm', hf m m' hs hfm⟩

theorem isOptional_of_same {e e' : Ty} (h : same e e' = true) (ho : e.isOptional = true) : e'.isOptional = true := by
  refine any_members_of_same (fun m m' hm hp => ?_) h ho
  obtain rfl := isPrimitive_iff.mp hp
  exact isPrimitive_iff.mpr (same_primitive_left.mp hm)

theorem assignable_of_same_right {t e e' : Ty} (h : same e e' = true) (hf : assignable t e = true) :
    assignable t e' = true := by
  have unknown {m m' : Ty} (hm : same m m' = true) (hu : m.isUnknown = true) : m'.isUnknown = true := by
    obtain rfl := isUnknown_iff.mp hu
    exact isUnknown_iff.mpr (same_unknown_left.mp hm)
  induction t using induct generalizing e e' with
  | primitive p =>
    refine any_members_of_same (fun m m' hm hp => ?_) h hf
    simp only [Bool.or_eq_true] at hp ⊢
    exact hp.imp (unknown hm) fun hs => same_trans hs hm
  | literal s =>
    refine any_members_of_same (fun m m' hm hp => ?_) h hf
    cases m with
    | primitive p => exact same_primitive_left.mp hm ▸ hp
    | literal s₁ =>
      obtain ⟨s₂, rfl, _⟩ := same_literal_left.mp hm
      exact same_trans hp hm
    | unknown => exact same_unknown_left.mp hm ▸ rfl
    | _ => simp [isUnknown, same] at hp
  | oneOf ms ih =>
    rw [assignable_oneOf] at hf ⊢
    rcases hf with (hf | hf) | hf
    · exact .inl (.inl (unknown h hf))
    · exact .inl (.inr (same_trans hf h))
    · exact .inr fun m hm => ih m hm h (hf m hm)
  | object fs ih =>
    refine any_members_of_same (fun m m' hm hp => ?_) h hf
    cases m with
    | object ks =>
      obtain ⟨ks', rfl, hk⟩ := same_object_left.mp hm
      simp only [List.all_eq_true] at hp ⊢
      intro k' hk'
      obtain ⟨k, hkm, hkk, hs⟩ := forall₂_partner hk hk'
      have hf := hp k hkm
      rw [fieldAssignable_eq] at hf ⊢
      rw [← hkk]
      cases hg : Bindings.get? k.1 fs with
      | none => exact isOptional_of_same hs (by simpa [hg] using hf)
      | some t => exact ih _ (Bindings.mem_of_get? hg) hs (by simpa [hg] using hf)
    | unknown => exact same_unknown_left.mp hm ▸ rfl
    | _ => simp [isUnknown] at hp
  | array a ih =>
    refine any_members_of_same (fun m m' hm hp => ?_) h hf
    cases m with
    | array b =>
      obtain ⟨b', rfl, hb⟩ := same_array_left.mp hm
      exact ih hb hp
    | unknown => exact same_unknown_left.mp hm ▸ rfl
    | _ => simp [isUnknown] at hp
  | tuple as ih =>
    refine any_members_of_same (fun m m' hm hp => ?_) h hf
    cases m with
    | tuple bs =>
      obtain ⟨bs', rfl, hb⟩ := same_tuple_left.mp hm
      simp only [eachAssignable_iff] at hp ⊢
      exact forall₂_comp hp hb fun a ha _ _ hab hbb => ih a ha hbb hab
    | array b =>
      obtain ⟨b', rfl, hb⟩ := same_array_left.mp hm
      simp only [allAssignable_iff] at hp ⊢
      exact fun a ha => ih a ha hb (hp a ha)
    | unknown => exact same_unknown_left.mp hm ▸ rfl
    | _ => simp [isUnknown] at hp
  | function ps r _ ih =>
    refine any_members_of_same (fun m m' hm hp => ?_) h hf
    cases m with
    | function qs s =>
      obtain ⟨qs', s', rfl, hq, hs⟩ := same_function_left.mp hm
      simp only [Bool.or_eq_true, Bool.and_eq_true, beq_iff_eq] at hp ⊢
      rcases hp with hp | ⟨hl, hp⟩
      · exact .inl (same_trans hp hm)
      · exact .inr ⟨hl.trans hq.length_eq, ih hs hp⟩
    | unknown => exact same_unknown_left.mp hm ▸ rfl
    | _ => simp [isUnknown] at hp
  | unknown => rfl
  | never => rfl
  | throws x =>
    refine any_members_of_same (fun m m' hm hp => ?_) h hf
    cases m with
    | throws y => exact same_throws_left.mp hm ▸ hp
    | unknown => exact same_unknown_left.mp hm ▸ rfl
    | _ => simp [isUnknown] at hp

theorem assignable_oneOf_iff {ms : List Ty} {e : Ty} (hm : (oneOf ms).WellFormed) (he : e.WellFormed) :
    assignable (.oneOf ms) e = true ↔ ∀ m ∈ ms, assignable m e = true := by
  obtain ⟨⟨_, hr⟩, hw⟩ := wellFormed_oneOf.mp hm
  rw [assignable_oneOf]
  constructor
  · rintro ((h | h) | h)
    · obtain rfl := isUnknown_iff.mp h
      exact fun m _ => assignable_unknown m
    · obtain ⟨ns, rfl, hl⟩ := same_oneOf_left.mp h
      intro m hm
      obtain ⟨n, hn, hs⟩ := hl.1 m hm
      exact assignable_of_mem (hr.plain m hm) he hn (assignable_of_same (hw m hm) hs)
    · exact h
  · exact .inr

theorem assignable_iff_parts {t e : Ty} (ht : t.WellFormed) (he : e.WellFormed) :
    assignable t e = true ↔ ∀ m ∈ parts t, assignable m e = true := by
  cases t with
  | oneOf ms => exact assignable_oneOf_iff ht he
  | never => exact iff_of_true rfl nofun
  | _ => simp [parts, members]

theorem assignable_literal_primitive (s : Scalar) : assignable (.literal s) (.primitive s.primitive) = true := by
  simp [assignable, members]

theorem kept_or_absorbed {flat : List Ty} {x : Ty} (h : Found flat x) :
    Kept flat x ∨ ∃ s, x = .literal s ∧ Kept flat (.primitive s.primitive) := by
  cases x with
  | primitive p => exact .inl (kept_primitive.mpr (.inl h))
  | literal s =>
    by_cases hp : Kept flat (.primitive s.primitive)
    · exact .inr ⟨s, rfl, hp⟩
    · exact .inl (kept_literal.mpr ⟨h, hp⟩)
  | _ => exact .inl ((kept_other rfl).mpr h)

theorem assignable_of_found {ts : List Ty} {x : Ty} (ht : ∀ t ∈ ts, t.WellFormed) (hx : x.WellFormed)
    (hp : isAlternative x = true) (h : Found (ts.flatMap parts) x) : assignable x (union ts) = true := by
  by_cases hu : Found (ts.flatMap parts) .unknown
  · rw [union_of_unknown hu]
    exact assignable_unknown x
  · have hkept {y : Ty} (hy : Kept (ts.flatMap parts) y) : ∃ u ∈ (union ts).members, same y u = true := by
      obtain ⟨u, hm, hs⟩ := (found_parts_union ht hu y).mpr hy
      exact ⟨u, parts_subset_members _ hm, hs⟩
    rcases kept_or_absorbed h with hk | ⟨s, rfl, hk⟩
    · obtain ⟨u, hm, hs⟩ := hkept hk
      exact assignable_of_mem hp (wellFormed_union ht) hm (assignable_of_same hx hs)
    · obtain ⟨u, hm, hs⟩ := hkept hk
      obtain rfl := same_primitive_left.mp hs
      exact assignable_of_mem hp (wellFormed_union ht) hm (assignable_literal_primitive s)

theorem assignable_union_of_mem {ts : List Ty} {t : Ty} (ht : ∀ t ∈ ts, t.WellFormed) (h : t ∈ ts)
    (hs : same t t = true) : assignable t (union ts) = true := by
  rw [assignable_iff_parts (ht t h) (wellFormed_union ht)]
  intro x hx
  obtain ⟨hw, rfl | hp⟩ := wellFormed_parts (ht t h) hx
  · rfl
  · exact assignable_of_found ht hw hp
      (found_of_mem (List.mem_flatMap.mpr ⟨t, h, hx⟩) (same_self_parts hs hx))

theorem assignable_boolean {e : Ty} (he : e.WellFormed) (ht : assignable (bool true) e = true)
    (hf : assignable (bool false) e = true) : assignable boolean e = true := by
  have hform {b : Bool} (h : assignable (bool b) e = true) : assignable boolean e = true ∨ bool b ∈ e.members := by
    obtain ⟨m, hm, hb⟩ := (assignable_iff_exists rfl fun _ => isOneOf_members he).mp h
    cases m with
    | primitive p =>
      obtain rfl : Primitive.boolean = p := by simpa [bool, assignable, members, Scalar.primitive] using hb
      exact .inl (assignable_of_mem rfl he hm (assignable_of_same rfl rfl))
    | literal s =>
      have hs : (Scalar.boolean b).same s = true := by
        simpa [bool, assignable, members, same, isUnknown] using hb
      obtain rfl : .boolean b = s := by
        cases s with
        | boolean c => simpa [Scalar.same] using hs
        | _ => simp [Scalar.same] at hs
      exact .inr hm
    | unknown => exact .inl (assignable_of_mem rfl he hm (assignable_unknown _))
    | oneOf ms => simpa [isOneOf] using isOneOf_members he hm
    | _ => simp [bool, assignable, members, same, isUnknown] at hb
  rcases hform ht with h | ht
  · exact h
  rcases hform hf with h | hf
  · exact h
  cases e with
  | oneOf es =>
    -- alternatives in normal form do not hold both truth values
    exact absurd ⟨any_isBool.mpr ht, any_isBool.mpr hf⟩ (wellFormed_oneOf.mp he).1.2.unfolded
  | _ =>
    have htf := (List.mem_singleton.mp ht).trans (List.mem_singleton.mp hf).symm
    simp [bool] at htf

theorem assignable_union {ts : List Ty} {e : Ty} (ht : ∀ t ∈ ts, t.WellFormed) (he : e.WellFormed)
    (h : ∀ t ∈ ts, assignable t e = true) : assignable (union ts) e = true := by
  by_cases hu : Found (ts.flatMap parts) .unknown
  · rw [union_of_unknown hu]
    rfl
  · have hflat {x : Ty} (hx : x ∈ distinctBy same (ts.flatMap parts)) : assignable x e = true := by
      obtain ⟨t, htm, hxt⟩ := List.mem_flatMap.mp (mem_of_mem_distinctBy hx)
      exact (assignable_iff_parts (ht t htm) he).mp (h t htm) x hxt
    rw [assignable_iff_parts (wellFormed_union ht) he, parts_union ht hu]
    intro x hx
    rcases mem_foldBooleans.mp (mem_normalized.mp hx).1 with hx | ⟨rfl, hT, hF⟩
    · exact hflat hx
    · exact assignable_boolean he (hflat hT) (hflat hF)

section

variable {x : Ty} (hx : isAlternative x = true)

include hx

theorem assignable_iff_exists_part {e : Ty} (he : e.WellFormed) :
    assignable x e = true ↔ ∃ m ∈ parts e, assignable x m = true := by
  rw [assignable_iff_exists hx fun _ => isOneOf_members he]
  cases e with
  | never => cases x <;> simp [parts, members, assignable, isUnknown, isAlternative, same] at hx ⊢
  | _ => rfl

theorem exists_normalized_of_assignable {flat : List Ty} {m : Ty} (hm : m ∈ flat) (h : assignable x m = true) :
    ∃ u ∈ normalized (distinctBy same flat), assignable x u = true := by
  obtain ⟨u, hu, hxu⟩ : ∃ u ∈ distinctBy same flat, assignable x u = true := by
    by_cases hself : same m m = true
    · obtain ⟨u, hu, hum⟩ := exists_mem_distinctBy same same_trans hm hself
      exact ⟨u, hu, assignable_of_same_right (same_symm hum) h⟩
    · exact ⟨m, mem_distinctBy_of_apart hm (apart_of_not_self hself), h⟩
  by_cases ha : absorbed (foldBooleans (distinctBy same flat)) u = true
  · obtain ⟨c, rfl, hc⟩ := absorbed_iff.mp ha
    refine ⟨.primitive c.primitive, mem_normalized.mpr ⟨hc, rfl⟩, ?_⟩
    -- only an equal literal fits a literal
    cases x with
    | literal d =>
      have hdc : d.same c = true := by simpa [assignable, members, isUnknown, same] using hxu
      rw [← Scalar.primitive_of_same hdc]
      exact assignable_literal_primitive d
    | _ => simp [assignable, members, isUnknown, isAlternative, same] at hxu hx
  · exact ⟨u, mem_normalized.mpr ⟨mem_foldBooleans.mpr (.inl hu), by simpa using ha⟩, hxu⟩

theorem assignable_to_boolean (hb : x ≠ boolean) (h : assignable x boolean = true) : ∃ b, x = bool b := by
  cases x with
  | literal c =>
    cases c with
    | boolean b => exact ⟨b, rfl⟩
    | _ => simp [assignable, members, boolean, Scalar.primitive] at h
  | primitive q =>
    have hq : boolean = .primitive q := by simpa [assignable, members, boolean, isUnknown] using h
    exact absurd hq.symm hb
  | _ => simp [assignable, members, boolean, isUnknown, same, isAlternative] at h hx

theorem assignable_union_iff {ts : List Ty} (ht : ∀ t ∈ ts, t.WellFormed) (hb : x ≠ boolean) :
    assignable x (union ts) = true ↔ ∃ t ∈ ts, assignable x t = true := by
  by_cases hu : Found (ts.flatMap parts) .unknown
  · obtain ⟨t, htm, hpt⟩ := List.mem_flatMap.mp (found_unknown.mp hu)
    obtain rfl := (unknown_mem_parts (ht t htm)).mp hpt
    rw [union_of_unknown hu]
    exact iff_of_true (assignable_unknown x) ⟨.unknown, htm, assignable_unknown x⟩
  · rw [assignable_iff_exists_part hx (wellFormed_union ht), parts_union ht hu]
    have hflat {m : Ty} (hm : m ∈ ts.flatMap parts) (hxm : assignable x m = true) :
        ∃ t ∈ ts, assignable x t = true := by
      obtain ⟨t, htm, hmt⟩ := List.mem_flatMap.mp hm
      exact ⟨t, htm, (assignable_iff_exists_part hx (ht t htm)).mpr ⟨m, hmt, hxm⟩⟩
    constructor
    · rintro ⟨m, hm, hxm⟩
      rcases mem_foldBooleans.mp (mem_normalized.mp hm).1 with hm | ⟨rfl, htrue, hfalse⟩
      · exact hflat (mem_of_mem_distinctBy hm) hxm
      · obtain ⟨b, rfl⟩ := assignable_to_boolean hx hb hxm
        refine hflat (m := bool b) ?_ (assignable_of_same rfl (by cases b <;> rfl))
        cases b
        · exact mem_of_mem_distinctBy hfalse
        · exact mem_of_mem_distinctBy htrue
    · rintro ⟨t, htm, hxt⟩
      obtain ⟨m, hmt, hxm⟩ := (assignable_iff_exists_part hx (ht t htm)).mp hxt
      exact exists_normalized_of_assignable hx (List.mem_flatMap.mpr ⟨t, htm, hmt⟩) hxm

end

theorem union_is_least_upper_bound (ms : List Ty) (e : Ty) (wf : ∀ m ∈ ms, m.WellFormed)
    (nan : ∀ m ∈ ms, m.NanFree) (he : e.WellFormed) :
    (∀ m ∈ ms, assignable m (union ms) = true) ∧
      ((∀ m ∈ ms, assignable m e = true) → assignable (union ms) e = true) :=
  ⟨fun m hm => assignable_union_of_mem wf hm (same_self (nan m hm)), assignable_union wf he⟩

theorem union_is_least_upper_bound_truth_values :
    (∀ m ∈ [bool true, .oneOf [bool false, text "a"], .array (int 1)],
      assignable m (union [bool true, .oneOf [bool false, text "a"], .array (int 1)]) = true) ∧
    assignable (union [bool true, .oneOf [bool false, text "a"], .array (int 1)])
      (.oneOf [boolean, string, .array (.oneOf [number, string])]) = true := by
  have h := union_is_least_upper_bound [bool true, .oneOf [bool false, text "a"], .array (int 1)]
    (.oneOf [boolean, string, .array (.oneOf [number, string])]) (by decide) (by decide) (by decide)
  exact ⟨h.1, h.2 (by decide)⟩

end Casewise.Ty
