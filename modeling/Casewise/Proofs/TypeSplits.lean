import Casewise.Proofs.Merged
import Casewise.Proofs.Union
import Casewise.Symbolic.Narrowing

namespace Casewise

namespace Ty

def Nameable (t : Ty) : Prop := (sortedMembers? t).isSome = true

instance (t : Ty) : Decidable t.Nameable := inferInstanceAs (Decidable (_ = true))

def Named (t : Ty) : Prop := ∀ m ∈ t.members, (name? m).isSome = true

variable {t m : Ty} {ts : List Ty}

theorem sortedMembers_eq_ok {ms : List Ty} : t.sortedMembers = .ok ms ↔ t.Nameable ∧ ms = byName t := by
  unfold sortedMembers Nameable byName
  cases sortedMembers? t with
  | none => simp [orTooLong]
  | some ns => simpa [orTooLong] using eq_comm

theorem sortedMembers_bind_eq_ok {f : List Ty → Ty} {u : Ty} :
    (t.sortedMembers >>= fun ms => pure (f ms)) = .ok u ↔ t.Nameable ∧ f (byName t) = u := by
  simp only [bind_eq_ok, sortedMembers_eq_ok, pure_eq_ok]
  constructor
  · rintro ⟨_, ⟨hn, rfl⟩, hu⟩
    exact ⟨hn, hu⟩
  · rintro ⟨hn, hu⟩
    exact ⟨_, ⟨hn, rfl⟩, hu⟩

theorem sortedMembers_eq_error {f : Fault} : t.sortedMembers = .error f ↔ f = .tooLong ∧ ¬ t.Nameable := by
  unfold sortedMembers Nameable
  cases sortedMembers? t <;> simp [orTooLong, eq_comm]

theorem sortedMembers_bind_of_not_nameable {α : Type} {f : List Ty → Except Fault α} (h : ¬ t.Nameable) :
    (t.sortedMembers >>= f) = .error .tooLong :=
  bind_eq_error.mpr (.inl (sortedMembers_eq_error.mpr ⟨rfl, h⟩))

theorem nameable_oneOf {ms : List Ty} : (oneOf ms).Nameable ↔ (oneOf ms).Named := by
  have hs : (sortedMembers? (.oneOf ms)).isSome = (names? ms).isSome := by
    simp only [sortedMembers?]
    cases names? ms <;> rfl
  rw [Nameable, hs, names?_isSome]
  rfl

theorem nameable_of_single (h : t.isOneOf = false) : t.Nameable := by
  cases t with
  | oneOf ms => cases h
  | _ => rfl

theorem Named.nameable (h : t.Named) : t.Nameable := by
  cases t with
  | oneOf ms => exact nameable_oneOf.mpr h
  | _ => rfl

theorem named_union (wf : ∀ t ∈ ts, t.WellFormed) (h : ∀ t ∈ ts, t.Named) : (union ts).Named := by
  have hsingle {m : Ty} (hm : m.isOneOf = false) (hn : (name? m).isSome = true) : m.Named := by
    unfold Named
    rw [members_of_not_oneOf hm]
    simpa using hn
  refine union_induct wf (fun t ht m hm => ?_) (hsingle rfl rfl) (hsingle rfl rfl) fun ms _ hr hm m' hm' => ?_
  · have hmem := parts_subset_members t hm
    exact hsingle (isOneOf_members (wf t ht) hmem) (h t ht m hmem)
  · refine hm m' hm' m' ?_
    have hplain := hr.plain m' hm'
    rw [members_of_not_oneOf]
    · exact List.mem_singleton.mpr rfl
    · cases m' <;> simp_all [isAlternative, isOneOf]

theorem nameable_union_filterMap {f : Ty → Option Ty} (ht : t.WellFormed) (hn : t.Nameable)
    (hf : ∀ m ∈ t.members, ∀ u, f m = some u → u.WellFormed ∧ u.Nameable ∧ ((name? m).isSome = true → u.Named)) :
    (union ((byName t).filterMap f)).Nameable := by
  by_cases hs : t.isOneOf = true
  · obtain ⟨ms, rfl⟩ : ∃ ms, t = oneOf ms := by
      cases t <;> simp_all [isOneOf]
    have hnamed := nameable_oneOf.mp hn
    refine (named_union (fun u hu => ?_) fun u hu => ?_).nameable
    all_goals
      obtain ⟨m, hm, hu⟩ := List.mem_filterMap.mp hu
      have hm := mem_byName.mp hm
    · exact (hf m hm u hu).1
    · exact (hf m hm u hu).2.2 (hnamed m hm)
  · have hb : byName t = [t] := by
      cases t <;> simp_all [isOneOf, byName, sortedMembers?]
    rw [hb]
    cases hu : f t with
    | none => simpa [hu] using nameable_of_single rfl
    | some u =>
      have hmem : t ∈ t.members := by simp [members_of_not_oneOf (by simpa using hs)]
      obtain ⟨hw, hnu, _⟩ := hf t hmem u hu
      simpa [hu, union_single hw] using hnu

theorem nameable_kept (h : t.WellFormed) (hm : m ∈ t.members) :
    m.WellFormed ∧ m.Nameable ∧ ((name? m).isSome = true → m.Named) := by
  have hs := isOneOf_members h hm
  refine ⟨every_members h hm, nameable_of_single hs, fun hn => ?_⟩
  simpa [Named, members_of_not_oneOf hs] using hn

structure Splits (t a b : Ty) : Prop where
  left : a.Regular
  right : b.Regular
  nameable : a.Nameable ∧ b.Nameable
  union : same (Ty.union [a, b]) t = true

theorem same_union_of_members {us : List Ty} (h : t.Regular) (hm : ∀ u, u ∈ us ↔ u ∈ t.members) :
    same (union us) t = true := by
  have hs := same_union_of_mem_iff (fun u hu => regular_members h ((hm u).mp hu)) hm
  rwa [union_members h.wellFormed] at hs

theorem splits_union {us vs : List Ty} (hu : ∀ u ∈ us, u.Regular) (hv : ∀ v ∈ vs, v.Regular)
    (hn : (union us).Nameable ∧ (union vs).Nameable) (h : same (union (us ++ vs)) t = true) :
    Splits t (union us) (union vs) :=
  ⟨regular_union hu, regular_union hv, hn, same_trans (same_union_pair hu hv) h⟩

theorem mem_filter_not_primitive {q : Primitive} {u : Ty} :
    u ∈ ts.filter (fun m => !m.isPrimitive q) ↔ u ∈ ts ∧ u ≠ .primitive q := by
  rw [List.mem_filter, Bool.not_eq_true', Bool.eq_false_iff, Ne, isPrimitive_iff]

def ofTruth (truthy : Bool) (m : Ty) : Option Ty :=
  if m.isPrimitive .boolean then some (bool truthy)
  else if (if truthy then m.mayBeTruthy else m.mayBeFalsy) then some m
  else none

theorem truthPart_eq_ok {b : Bool} {u : Ty} :
    t.truthPart b = .ok u ↔ t.Nameable ∧ union ((byName t).filterMap (ofTruth b)) = u :=
  sortedMembers_bind_eq_ok

theorem ofTruth_eq_some {b : Bool} {u : Ty} : ofTruth b m = some u ↔
    (m = boolean ∧ u = bool b) ∨ (m ≠ boolean ∧ m.truth? ≠ some (!b) ∧ u = m) := by
  unfold ofTruth
  by_cases hb : m = boolean
  · subst hb
    simpa [boolean, isPrimitive] using eq_comm
  · have hp : m.isPrimitive .boolean = false := by
      rw [Bool.eq_false_iff, Ne, isPrimitive_iff]
      exact hb
    cases b <;> cases ht : m.truth? <;> simp [hp, hb, ht, mayBeTruthy, mayBeFalsy, eq_comm (a := u)]

theorem mem_ofTruth {u : Ty} :
    u ∈ (byName t).filterMap (ofTruth true) ++ (byName t).filterMap (ofTruth false) ↔
      (boolean ∈ t.members ∧ (u = bool true ∨ u = bool false)) ∨ (u ∈ t.members ∧ u ≠ boolean) := by
  simp only [List.mem_append, List.mem_filterMap, mem_byName, ofTruth_eq_some]
  constructor
  · rintro (⟨m, hm, ⟨rfl, rfl⟩ | ⟨hb, _, rfl⟩⟩ | ⟨m, hm, ⟨rfl, rfl⟩ | ⟨hb, _, rfl⟩⟩)
    · exact .inl ⟨hm, .inl rfl⟩
    · exact .inr ⟨hm, hb⟩
    · exact .inl ⟨hm, .inr rfl⟩
    · exact .inr ⟨hm, hb⟩
  · rintro (⟨hm, rfl | rfl⟩ | ⟨hm, hb⟩)
    · exact .inl ⟨boolean, hm, .inl ⟨rfl, rfl⟩⟩
    · exact .inr ⟨boolean, hm, .inl ⟨rfl, rfl⟩⟩
    · by_cases ht : u.truth? = some false
      · exact .inr ⟨u, hm, .inr ⟨hb, by simp [ht], rfl⟩⟩
      · exact .inl ⟨u, hm, .inr ⟨hb, ht, rfl⟩⟩

theorem regular_bool (b : Bool) : (bool b).Regular := ⟨rfl, by cases b <;> rfl⟩

theorem regular_ofTruth {b : Bool} {u : Ty} (h : t.Regular) (hm : m ∈ t.members) (hu : ofTruth b m = some u) :
    u.Regular := by
  obtain ⟨_, rfl⟩ | ⟨_, _, rfl⟩ := ofTruth_eq_some.mp hu
  · exact regular_bool b
  · exact regular_members h hm

theorem nameable_ofTruth {b : Bool} {u : Ty} (h : t.Regular) (hm : m ∈ t.members) (hu : ofTruth b m = some u) :
    u.WellFormed ∧ u.Nameable ∧ ((name? m).isSome = true → u.Named) := by
  obtain ⟨_, rfl⟩ | ⟨_, _, rfl⟩ := ofTruth_eq_some.mp hu
  · refine ⟨(regular_bool b).wellFormed, nameable_of_single rfl, fun _ => ?_⟩
    cases b <;> simp [Named, members, bool, name?, Scalar.text?]
  · exact nameable_kept h.wellFormed hm

theorem splits_truth {a b : Ty} (h : t.Regular) (ha : t.truthPart true = .ok a) (hb : t.truthPart false = .ok b) :
    Splits t a b := by
  obtain ⟨hn, rfl⟩ := truthPart_eq_ok.mp ha
  obtain ⟨_, rfl⟩ := truthPart_eq_ok.mp hb
  have hregular (b : Bool) : ∀ u ∈ (byName t).filterMap (ofTruth b), u.Regular := by
    intro u hu
    obtain ⟨m, hm, hmu⟩ := List.mem_filterMap.mp hu
    exact regular_ofTruth h (mem_byName.mp hm) hmu
  have hnameable (b : Bool) : (union ((byName t).filterMap (ofTruth b))).Nameable :=
    nameable_union_filterMap h.wellFormed hn fun m hm u => nameable_ofTruth h hm
  refine splits_union (hregular true) (hregular false) ⟨hnameable true, hnameable false⟩ ?_
  by_cases hbool : boolean ∈ t.members
  · -- `boolean` is the union of the two truth values that stand in its place
    have hothers : ∀ u ∈ t.members.filter (fun m => !m.isPrimitive .boolean), u.Regular :=
      fun u hu => regular_members h (List.mem_filter.mp hu).1
    have htruths : ∀ u ∈ [bool true, bool false], u.Regular := by
      simpa using ⟨regular_bool true, regular_bool false⟩
    have hunfolded : same (union ((byName t).filterMap (ofTruth true) ++ (byName t).filterMap (ofTruth false)))
        (union ([bool true, bool false] ++ t.members.filter fun m => !m.isPrimitive .boolean)) = true := by
      refine same_union_of_mem_iff (List.forall_mem_append.mpr ⟨hregular true, hregular false⟩) fun u => ?_
      rw [mem_ofTruth, List.mem_append, mem_filter_not_primitive]
      simp only [hbool, true_and, List.mem_cons, List.not_mem_nil, or_false]
      exact Iff.rfl
    refine same_trans hunfolded (same_trans (same_symm (same_union_union htruths hothers)) ?_)
    have hboolean : union [bool true, bool false] = boolean := rfl
    rw [hboolean]
    refine same_union_of_members h fun u => ?_
    rw [List.mem_cons, mem_filter_not_primitive]
    by_cases hu : u = boolean
    · simp [hu, hbool]
    · exact ⟨fun hm => (hm.resolve_left hu).1, fun hm => .inr ⟨hm, hu⟩⟩
  · refine same_union_of_members h fun u => ?_
    rw [mem_ofTruth]
    constructor
    · rintro (⟨hm, _⟩ | ⟨hm, _⟩)
      · exact absurd hm hbool
      · exact hm
    · intro hm
      refine .inr ⟨hm, ?_⟩
      rintro rfl
      exact hbool hm

theorem withoutNone_eq_ok {u : Ty} :
    t.withoutNone = .ok u ↔ t.Nameable ∧ union ((byName t).filter fun m => !m.isPrimitive .null) = u :=
  sortedMembers_bind_eq_ok

theorem nonePart_of_ok {u : Ty} (h : t.nonePart = .ok u) :
    (t = .unknown ∧ u = null) ∨ (null ∈ t.members ∧ u = null) ∨ (null ∉ t.members ∧ u = never) := by
  unfold nonePart at h
  by_cases ht : t = .unknown
  · subst ht
    exact .inl ⟨rfl, (pure_eq_ok.mp h).symm⟩
  · have hu : t.isUnknown = false := by
      rw [Bool.eq_false_iff, Ne, isUnknown_iff]
      exact ht
    have hany : (byName t).any (isPrimitive .null) = true ↔ null ∈ t.members := by
      simp [mem_byName, null]
    rw [hu] at h
    obtain ⟨_, hif⟩ :=
      (sortedMembers_bind_eq_ok (f := fun ms => if ms.any (isPrimitive .null) then null else never)).mp h
    by_cases hnull : null ∈ t.members
    · rw [if_pos (hany.mpr hnull)] at hif
      exact .inr (.inl ⟨hnull, hif.symm⟩)
    · rw [if_neg (hany.not.mpr hnull)] at hif
      exact .inr (.inr ⟨hnull, hif.symm⟩)

theorem nonePart_of_nameable (h : t.Nameable) : ∃ u, t.nonePart = .ok u := by
  unfold nonePart
  rw [sortedMembers_eq_ok.mpr ⟨h, rfl⟩]
  cases t.isUnknown
  · exact ⟨_, rfl⟩
  · exact ⟨_, rfl⟩

theorem nameable_union_filter {p : Ty → Bool} (h : t.WellFormed) (hn : t.Nameable) :
    (union ((byName t).filter p)).Nameable := by
  rw [← List.filterMap_eq_filter]
  refine nameable_union_filterMap h hn fun m hm u hu => ?_
  obtain ⟨_, rfl⟩ : p m = true ∧ m = u := by simpa [Option.guard] using hu
  exact nameable_kept h hm

theorem splits_none {a b : Ty} (h : t.Regular) (ha : t.nonePart = .ok a) (hb : t.withoutNone = .ok b) :
    Splits t a b := by
  obtain ⟨hn, rfl⟩ := withoutNone_eq_ok.mp hb
  have hnull : null.Regular := ⟨rfl, rfl⟩
  have hrest : ∀ u ∈ (byName t).filter (fun m => !m.isPrimitive .null), u.Regular :=
    fun u hu => regular_members h (mem_byName.mp (List.mem_filter.mp hu).1)
  have hnameable := nameable_union_filter (p := fun m => !m.isPrimitive .null) h.wellFormed hn
  obtain ⟨rfl, rfl⟩ | ⟨hmem, rfl⟩ | ⟨hmem, rfl⟩ := nonePart_of_ok ha
  · exact ⟨hnull, regular_union hrest, ⟨rfl, rfl⟩, rfl⟩
  · have hone : ∀ u ∈ [null], u.Regular := by simpa using hnull
    refine splits_union hone hrest ⟨rfl, hnameable⟩ ?_
    refine same_union_of_members h fun u => ?_
    rw [List.mem_append, List.mem_singleton, mem_filter_not_primitive, mem_byName]
    by_cases hu : u = null
    · simp [hu, hmem]
    · exact ⟨fun hm => (hm.resolve_left hu).1, fun hm => .inr ⟨hm, hu⟩⟩
  · have hempty : ∀ u ∈ ([] : List Ty), u.Regular := by simp
    refine splits_union hempty hrest ⟨rfl, hnameable⟩ ?_
    refine same_union_of_members h fun u => ?_
    rw [List.nil_append, mem_filter_not_primitive, mem_byName]
    refine and_iff_left_of_imp fun hm => ?_
    rintro rfl
    exact hmem hm

def ofInstance (classes : List KnownClass) (matching : Bool) (m : Ty) : Option Ty :=
  if m.isUnknown then some (if matching then instancesOf classes else m)
  else if m.isInstance classes == matching then some m
  else none

theorem instancePart_eq_ok {classes : List KnownClass} {matching : Bool} {u : Ty} :
    t.instancePart classes matching = .ok u ↔
      t.Nameable ∧ union ((byName t).filterMap (ofInstance classes matching)) = u :=
  sortedMembers_bind_eq_ok

theorem instancesOf_regular_named (classes : List KnownClass) :
    (instancesOf classes).Regular ∧ (instancesOf classes).Named := by
  have hclass (c : KnownClass) : (c.type?.getD .unknown).Regular ∧ (c.type?.getD .unknown).Named := by
    cases c <;> exact ⟨⟨rfl, rfl⟩, by simp [KnownClass.type?, Named, members, name?, number, boolean, string]⟩
  unfold instancesOf
  cases hts : classes.mapM KnownClass.type? with
  | none => exact ⟨⟨rfl, rfl⟩, by simp [Named, members, name?]⟩
  | some ts =>
    have hmap : ts = classes.map fun c => c.type?.getD .unknown :=
      mapM_eq_map (fun c t ht => by rw [ht]; rfl) hts
    have hall : ∀ t ∈ ts, t.Regular ∧ t.Named := by
      rw [hmap]
      simpa using fun c _ => hclass c
    exact ⟨regular_union fun t ht => (hall t ht).1,
      named_union (fun t ht => (hall t ht).1.wellFormed) fun t ht => (hall t ht).2⟩

theorem eq_unknown_of_mem_members (h : t.WellFormed) (hm : .unknown ∈ t.members) : t = .unknown := by
  cases t with
  | oneOf ms => cases (wellFormed_oneOf.mp h).1.2.plain _ hm
  | _ => exact (List.mem_singleton.mp hm).symm

theorem ofInstance_of_known {classes : List KnownClass} {matching : Bool} {u : Ty} (hm : m ≠ .unknown) :
    ofInstance classes matching m = some u ↔ m.isInstance classes = matching ∧ u = m := by
  have hu : m.isUnknown = false := by
    rw [Bool.eq_false_iff, Ne, isUnknown_iff]
    exact hm
  simp [ofInstance, hu, eq_comm (a := u)]

theorem splits_instance {classes : List KnownClass} {a b : Ty} (h : t.Regular)
    (ha : t.instancePart classes true = .ok a) (hb : t.instancePart classes false = .ok b) : Splits t a b := by
  obtain ⟨hn, rfl⟩ := instancePart_eq_ok.mp ha
  obtain ⟨_, rfl⟩ := instancePart_eq_ok.mp hb
  by_cases hunk : .unknown ∈ t.members
  · obtain rfl := eq_unknown_of_mem_members h.wellFormed hunk
    obtain ⟨hr, hnamed⟩ := instancesOf_regular_named classes
    have hkept : (byName .unknown).filterMap (ofInstance classes true) = [instancesOf classes] := rfl
    have hrest : union ((byName .unknown).filterMap (ofInstance classes false)) = .unknown := rfl
    rw [hkept, hrest, union_single hr.wellFormed]
    refine ⟨hr, ⟨rfl, rfl⟩, ⟨hnamed.nameable, rfl⟩, ?_⟩
    rw [union_of_unknown]
    · rfl
    · exact found_unknown.mpr (List.mem_flatMap.mpr ⟨.unknown, by simp, by simp [parts, members]⟩)
  · have hmem (matching : Bool) (u : Ty) : u ∈ (byName t).filterMap (ofInstance classes matching) ↔
        u ∈ t.members ∧ u.isInstance classes = matching := by
      simp only [List.mem_filterMap, mem_byName]
      constructor
      · rintro ⟨m, hm, hu⟩
        obtain ⟨hi, rfl⟩ := (ofInstance_of_known fun he => hunk (he ▸ hm)).mp hu
        exact ⟨hm, hi⟩
      · rintro ⟨hm, hi⟩
        exact ⟨u, hm, (ofInstance_of_known fun he => hunk (he ▸ hm)).mpr ⟨hi, rfl⟩⟩
    have hregular (matching : Bool) : ∀ u ∈ (byName t).filterMap (ofInstance classes matching), u.Regular :=
      fun u hu => regular_members h ((hmem matching u).mp hu).1
    have hnameable (matching : Bool) : (union ((byName t).filterMap (ofInstance classes matching))).Nameable := by
      refine nameable_union_filterMap h.wellFormed hn fun m hm u hu => ?_
      obtain ⟨_, rfl⟩ := (ofInstance_of_known fun he => hunk (he ▸ hm)).mp hu
      exact nameable_kept h.wellFormed hm
    refine splits_union (hregular true) (hregular false) ⟨hnameable true, hnameable false⟩ ?_
    refine same_union_of_members h fun u => ?_
    rw [List.mem_append, hmem, hmem]
    cases u.isInstance classes <;> simp

theorem same_union_of_all_eq {us : List Ty} (h : t.Regular) (hne : us ≠ []) (hu : ∀ u ∈ us, u = t) :
    same (union us) t = true := by
  have hmem (u : Ty) : u ∈ us ↔ u ∈ [t] := by
    rw [List.mem_singleton]
    refine ⟨hu u, ?_⟩
    rintro rfl
    obtain ⟨v, hv⟩ := List.exists_mem_of_ne_nil us hne
    exact hu v hv ▸ hv
  have hs := same_union_of_mem_iff (fun u hm => hu u hm ▸ h) hmem
  rwa [union_single h.wellFormed] at hs

theorem same_union_of_part {u : Ty} (h : t.Regular) (hts : ∀ x ∈ ts, x.Regular) (hs : same (union ts) t = true)
    (hu : u ∈ ts) : same (union [u, t]) t = true := by
  have hone : ∀ x ∈ [u], x.Regular := by simpa using hts u hu
  have hpair : ∀ x ∈ [u, t], x.Regular := by simpa using ⟨hts u hu, h⟩
  have hfold : ∀ x ∈ [u, union ts], x.Regular := by simpa using ⟨hts u hu, regular_union hts⟩
  have h₁ : same (union [u, t]) (union [u, union ts]) = true :=
    same_union_of_like hpair hfold ((like_single (hts u hu).self).append (like_single (same_symm hs)))
  have h₂ : same (union [u, union ts]) (union (u :: ts)) = true := by
    have hp := same_union_pair hone hts
    rwa [union_single (hts u hu).wellFormed] at hp
  have h₃ : same (union (u :: ts)) (union ts) = true :=
    same_union_of_mem_iff (List.forall_mem_cons.mpr ⟨hts u hu, hts⟩) fun x => by simpa using fun he => he ▸ hu
  exact same_trans h₁ (same_trans h₂ (same_trans h₃ hs))

theorem same_union_trans {u v : Ty} (hv : v.Regular) (hu : u.Regular) (ht : t.Regular)
    (hvu : same (union [v, u]) u = true) (hut : same (union [u, t]) t = true) : same (union [v, t]) t = true := by
  have hleft : ∀ x ∈ [v, u], x.Regular := by simpa using ⟨hv, hu⟩
  have hright : ∀ x ∈ [t], x.Regular := by simpa using ht
  have hall := List.forall_mem_append.mpr ⟨hleft, hright⟩
  have h₁ : same (union [union [v, u], t]) (union [u, t]) = true := by
    refine same_union_of_like ?_ ?_ ((like_single hvu).append (like_single ht.self))
    · simpa using ⟨regular_union hleft, ht⟩
    · simpa using ⟨hu, ht⟩
  have h₂ : same (union [v, u, t]) t = true :=
    same_trans (same_symm (same_union_union hleft hright)) (same_trans h₁ hut)
  exact same_union_of_part ht hall h₂ (by simp)

theorem union_filter_not_never (us : List Ty) : union (us.filter fun u => !u.isNever) = union us := by
  refine union_congr_parts ?_
  induction us with
  | nil => rfl
  | cons u us ih =>
    by_cases hu : u.isNever = true
    · have hp : parts u = [] := by cases u <;> simp_all [isNever, parts]
      simp [hu, hp, ih]
    · simp [hu, ih]

theorem ne_nil_of_same_union {us : List Ty} (hs : same (union us) t = true) (ht : t ≠ .never) : us ≠ [] := by
  rintro rfl
  have hnever : same .never t = true := hs
  cases t <;> simp_all [same]

end Ty

end Casewise
