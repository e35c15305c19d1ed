import Casewise.Proofs.NormalForm

namespace Casewise.Ty

def Found (ts : List Ty) (x : Ty) : Prop := ∃ t ∈ ts, same x t = true

section

variable {ts us : List Ty} {x y : Ty}

theorem same_self_left (h : same x y = true) : same x x = true := same_trans h (same_symm h)

theorem same_self_right (h : same x y = true) : same y y = true := same_trans (same_symm h) h

theorem apart_of_not_self (h : ¬ same x x = true) (y : Ty) : same y x = false :=
  Bool.eq_false_iff.mpr fun hyx => h (same_self_right hyx)

theorem found_of_mem (h : x ∈ ts) (hx : same x x = true) : Found ts x := ⟨x, h, hx⟩

@[simp] theorem found_nil : ¬ Found [] x := by
  simp [Found]

@[simp] theorem found_append : Found (ts ++ us) x ↔ Found ts x ∨ Found us x := by
  simp only [Found, List.mem_append, or_and_right, exists_or]

@[simp] theorem found_cons : Found (y :: ts) x ↔ same x y = true ∨ Found ts x := by
  simp [Found]

theorem found_flatMap {f : Ty → List Ty} : Found (ts.flatMap f) x ↔ ∃ t ∈ ts, Found (f t) x := by
  simp only [Found, List.mem_flatMap]
  constructor
  · rintro ⟨m, ⟨t, ht, hm⟩, hx⟩
    exact ⟨t, ht, m, hm, hx⟩
  · rintro ⟨t, ht, m, hm, hx⟩
    exact ⟨m, ⟨t, ht, hm⟩, hx⟩

@[simp] theorem found_primitive {q : Primitive} : Found ts (.primitive q) ↔ .primitive q ∈ ts := by
  simp [Found]

@[simp] theorem found_unknown : Found ts .unknown ↔ .unknown ∈ ts := by
  simp [Found]

@[simp] theorem found_bool {b : Bool} : Found ts (bool b) ↔ bool b ∈ ts := by
  have h (t : Ty) : same (bool b) t = true ↔ t = bool b := by
    rw [bool, same_literal_left]
    constructor
    · rintro ⟨s, rfl, hs⟩
      cases s <;> simp_all [Scalar.same]
    · rintro rfl
      exact ⟨_, rfl, by simp [Scalar.same]⟩
  simp [Found, h]

theorem Found.mono (h : Found ts x) (hm : ∀ t ∈ ts, t ∈ us) : Found us x := by
  obtain ⟨t, ht, hx⟩ := h
  exact ⟨t, hm t ht, hx⟩

@[simp] theorem found_distinctBy : Found (distinctBy same ts) x ↔ Found ts x := by
  constructor
  · exact fun h => h.mono fun t => mem_of_mem_distinctBy
  · rintro ⟨t, ht, hx⟩
    obtain ⟨u, hu, hut⟩ := exists_mem_distinctBy same same_trans ht (same_self_right hx)
    exact ⟨u, hu, same_trans hx (same_symm hut)⟩

theorem like_of_found (ht : ∀ t ∈ ts, same t t = true) (hu : ∀ u ∈ us, same u u = true)
    (h : ∀ x, Found ts x ↔ Found us x) : Like ts us := by
  refine ⟨fun t hm => (h t).mp (found_of_mem hm (ht t hm)), fun u hm => ?_⟩
  obtain ⟨t, htm, hut⟩ := (h u).mpr (found_of_mem hm (hu u hm))
  exact ⟨t, htm, same_symm hut⟩

theorem Like.found (h : Like ts us) : Found ts x ↔ Found us x := by
  constructor
  · rintro ⟨t, ht, hx⟩
    obtain ⟨u, hu, htu⟩ := h.1 t ht
    exact ⟨u, hu, same_trans hx htu⟩
  · rintro ⟨u, hu, hx⟩
    obtain ⟨t, ht, htu⟩ := h.2 u hu
    exact ⟨t, ht, same_trans hx (same_symm htu)⟩

theorem Like.flatMap {f : Ty → List Ty} (h : Like ts us) (hf : ∀ x y, same x y = true → Like (f x) (f y)) :
    Like (ts.flatMap f) (us.flatMap f) := by
  refine ⟨fun m hm => ?_, fun n hn => ?_⟩
  · obtain ⟨t, ht, hmt⟩ := List.mem_flatMap.mp hm
    obtain ⟨u, hu, htu⟩ := h.1 t ht
    obtain ⟨n, hn, hmn⟩ := (hf t u htu).1 m hmt
    exact ⟨n, List.mem_flatMap.mpr ⟨u, hu, hn⟩, hmn⟩
  · obtain ⟨u, hu, hnu⟩ := List.mem_flatMap.mp hn
    obtain ⟨t, ht, htu⟩ := h.2 u hu
    obtain ⟨m, hm, hmn⟩ := (hf t u htu).2 n hnu
    exact ⟨m, List.mem_flatMap.mpr ⟨t, ht, hm⟩, hmn⟩

theorem Like.any {f : Ty → Bool} (h : Like ts us) (hf : ∀ x y, same x y = true → f x = f y) : ts.any f = us.any f := by
  rw [Bool.eq_iff_iff, List.any_eq_true, List.any_eq_true]
  constructor
  · rintro ⟨t, ht, hft⟩
    obtain ⟨u, hu, htu⟩ := h.1 t ht
    exact ⟨u, hu, by rwa [← hf t u htu]⟩
  · rintro ⟨u, hu, hfu⟩
    obtain ⟨t, ht, htu⟩ := h.2 u hu
    exact ⟨t, ht, by rwa [hf t u htu]⟩

theorem Like.filter {f : Ty → Bool} (h : Like ts us) (hf : ∀ x y, same x y = true → f x = f y) :
    Like (ts.filter f) (us.filter f) := by
  refine ⟨fun t ht => ?_, fun u hu => ?_⟩
  · obtain ⟨ht, hft⟩ := List.mem_filter.mp ht
    obtain ⟨u, hu, htu⟩ := h.1 t ht
    exact ⟨u, List.mem_filter.mpr ⟨hu, by rwa [← hf t u htu]⟩, htu⟩
  · obtain ⟨hu, hfu⟩ := List.mem_filter.mp hu
    obtain ⟨t, ht, htu⟩ := h.2 u hu
    exact ⟨t, List.mem_filter.mpr ⟨ht, by rwa [hf t u htu]⟩, htu⟩

theorem like_single (h : same x y = true) : Like [x] [y] := by
  simpa [Like] using h

theorem like_of_mem_iff (ht : ∀ t ∈ ts, same t t = true) (h : ∀ t, t ∈ ts ↔ t ∈ us) : Like ts us :=
  ⟨fun t hm => ⟨t, (h t).mp hm, ht t hm⟩, fun u hm => ⟨u, (h u).mpr hm, ht u ((h u).mpr hm)⟩⟩

end

def Kept (flat : List Ty) (x : Ty) : Prop := Found (normalized flat) x

variable {flat : List Ty}

theorem kept_primitive {q : Primitive} : Kept flat (.primitive q) ↔
    Found flat (.primitive q) ∨ (q = .boolean ∧ Found flat (bool true) ∧ Found flat (bool false)) := by
  simp [Kept, mem_normalized, mem_foldBooleans, absorbed, boolean]

theorem kept_literal {s : Scalar} :
    Kept flat (.literal s) ↔ Found flat (.literal s) ∧ ¬ Kept flat (.primitive s.primitive) := by
  have habs {s' : Scalar} (hs : s.same s' = true) : absorbed (foldBooleans flat) (.literal s') = false ↔
      ¬ Kept flat (.primitive s.primitive) := by
    rw [Bool.eq_false_iff, Scalar.primitive_of_same hs]
    simp [Kept, mem_normalized, absorbed]
  constructor
  · rintro ⟨t, ht, hs⟩
    obtain ⟨s', rfl, hs'⟩ := same_literal_left.mp hs
    obtain ⟨hm, ha⟩ := mem_normalized.mp ht
    refine ⟨⟨_, ?_, hs⟩, (habs hs').mp ha⟩
    simpa [mem_foldBooleans, boolean] using hm
  · rintro ⟨⟨t, ht, hs⟩, hn⟩
    obtain ⟨s', rfl, hs'⟩ := same_literal_left.mp hs
    exact ⟨_, mem_normalized.mpr ⟨mem_foldBooleans.mpr (.inl ht), (habs hs').mpr hn⟩, hs⟩

def isPrimitiveOrLiteral : Ty → Bool
  | .primitive _ => true
  | .literal _ => true
  | _ => false

theorem isPrimitiveOrLiteral_of_same {x y : Ty} (h : same x y = true) :
    isPrimitiveOrLiteral x = isPrimitiveOrLiteral y := by
  cases x <;> cases y <;> simp_all [same, isPrimitiveOrLiteral]

theorem kept_other {x : Ty} (hx : isPrimitiveOrLiteral x = false) : Kept flat x ↔ Found flat x := by
  have hform {t : Ty} (ht : same x t = true) : isPrimitiveOrLiteral t = false :=
    (isPrimitiveOrLiteral_of_same ht).symm.trans hx
  constructor
  · rintro ⟨t, ht, hs⟩
    rcases mem_of_mem_normalized ht with h | rfl
    · exact ⟨t, h, hs⟩
    · exact absurd (hform hs) (by simp [boolean, isPrimitiveOrLiteral])
  · rintro ⟨t, ht, hs⟩
    refine ⟨t, mem_normalized.mpr ⟨mem_foldBooleans.mpr (.inl ht), ?_⟩, hs⟩
    rw [Bool.eq_false_iff]
    intro ha
    obtain ⟨s, rfl, _⟩ := absorbed_iff.mp ha
    exact absurd (hform hs) (by simp [isPrimitiveOrLiteral])

theorem kept_congr {flat' : List Ty} (h : ∀ x, Found flat x ↔ Found flat' x) (x : Ty) :
    Kept flat x ↔ Kept flat' x := by
  have hp (q : Primitive) : Kept flat (.primitive q) ↔ Kept flat' (.primitive q) := by
    simp only [kept_primitive, h]
  cases x with
  | primitive q => exact hp q
  | literal s => simp only [kept_literal, h, hp]
  | _ => rw [kept_other rfl, kept_other rfl, h]

theorem kept_normalized_append (ts us : List Ty) (x : Ty) : Kept (normalized ts ++ us) x ↔ Kept (ts ++ us) x := by
  have hf (y : Ty) : Found (normalized ts) y ↔ Kept ts y := Iff.rfl
  have hb (b : Bool) : Kept ts (bool b) ↔ Found ts (bool b) ∧ ¬ Kept ts (.primitive .boolean) := kept_literal
  have hp (q : Primitive) : Kept (normalized ts ++ us) (.primitive q) ↔ Kept (ts ++ us) (.primitive q) := by
    rw [kept_primitive, kept_primitive]
    simp only [found_append, hf, hb]
    rw [kept_primitive, kept_primitive]
    by_cases hq : q = .boolean
    · subst hq
      simp only [true_and]
      tauto
    · simp only [hq, false_and, or_false]
  cases x with
  | primitive q => exact hp q
  | literal s =>
    have hmono : Kept ts (.primitive s.primitive) → Kept (ts ++ us) (.primitive s.primitive) := by
      simp only [kept_primitive, found_append]
      tauto
    rw [kept_literal, kept_literal, hp, found_append, found_append, hf, kept_literal]
    tauto
  | _ =>
    rw [kept_other rfl, kept_other rfl, found_append, found_append, hf, kept_other rfl]

theorem same_collapse {ms ns : List Ty} (hm : ms.Pairwise fun a b => same a b = false)
    (hn : ns.Pairwise fun a b => same a b = false) (h : Like ms ns) : same (collapse ms) (collapse ns) = true := by
  match ms, ns with
  | [], [] => rfl
  | [], n :: ns => simpa using h.2 n (by simp)
  | m :: ms, [] => simpa using h.1 m (by simp)
  | [m], [n] => simpa [collapse] using h.1 m (by simp)
  | [m], n :: n' :: ns =>
    -- both alternatives on the right equal the only one on the left
    have h₁ : same m n = true := by simpa using h.2 n (by simp)
    have h₂ : same m n' = true := by simpa using h.2 n' (by simp)
    have hne := (List.pairwise_cons.mp hn).1 n' (by simp)
    simp [same_trans (same_symm h₁) h₂] at hne
  | m :: m' :: ms, [n] =>
    have h₁ : same m n = true := by simpa using h.1 m (by simp)
    have h₂ : same m' n = true := by simpa using h.1 m' (by simp)
    have hne := (List.pairwise_cons.mp hm).1 m' (by simp)
    simp [same_trans h₁ (same_symm h₂)] at hne
  | m :: m' :: ms, n :: n' :: ns => exact same_oneOf_left.mpr ⟨_, rfl, h⟩

theorem parts_subset_members (t : Ty) {m : Ty} (h : m ∈ parts t) : m ∈ t.members := by
  cases t <;> simp_all [parts, members]

theorem same_self_parts {t m : Ty} (h : same t t = true) (hm : m ∈ parts t) : same m m = true := by
  cases t with
  | oneOf ms =>
    obtain ⟨_, he, hl⟩ := same_oneOf_left.mp h
    obtain ⟨n, _, hmn⟩ := hl.1 m hm
    exact same_self_left hmn
  | never => simp [parts] at hm
  | _ =>
    obtain rfl := List.mem_singleton.mp hm
    exact h

theorem unknown_mem_distinct {ts : List Ty} :
    (distinctBy same (ts.flatMap parts)).any isUnknown = true ↔ Found (ts.flatMap parts) .unknown := by
  rw [any_isUnknown, ← found_unknown, found_distinctBy]

theorem kept_distinctBy (ts : List Ty) (x : Ty) : Kept (distinctBy same ts) x ↔ Kept ts x :=
  kept_congr (fun _ => found_distinctBy) x

theorem union_of_unknown {ts : List Ty} (h : Found (ts.flatMap parts) .unknown) : union ts = .unknown := by
  rw [union_eq, if_pos (unknown_mem_distinct.mpr h)]

theorem plain_distinct {ts : List Ty} (wf : ∀ t ∈ ts, t.WellFormed) (h : ¬ Found (ts.flatMap parts) .unknown) :
    ∀ m ∈ distinctBy same (ts.flatMap parts), isAlternative m = true := by
  intro m hm
  obtain ⟨t, ht, hmt⟩ := List.mem_flatMap.mp (mem_of_mem_distinctBy hm)
  refine (wellFormed_parts (wf t ht) hmt).2.resolve_left fun hu => h ?_
  rw [found_unknown, ← hu]
  exact mem_of_mem_distinctBy hm

theorem reduced_union {ts : List Ty} (wf : ∀ t ∈ ts, t.WellFormed) (h : ¬ Found (ts.flatMap parts) .unknown) :
    Reduced (normalized (distinctBy same (ts.flatMap parts))) :=
  reduced_normalized (pairwise_distinctBy same _) (plain_distinct wf h)

theorem parts_collapse {ms : List Ty} (h : ∀ m ∈ ms, isAlternative m = true) : parts (collapse ms) = ms := by
  match ms with
  | [] => rfl
  | [m] =>
    exact parts_of_alternative (h m (by simp))
  | _ :: _ :: _ => rfl

theorem parts_union {ts : List Ty} (wf : ∀ t ∈ ts, t.WellFormed) (h : ¬ Found (ts.flatMap parts) .unknown) :
    parts (union ts) = normalized (distinctBy same (ts.flatMap parts)) := by
  rw [union_eq, if_neg (unknown_mem_distinct.not.mpr h), parts_collapse (reduced_union wf h).plain]

theorem found_parts_union {ts : List Ty} (wf : ∀ t ∈ ts, t.WellFormed) (h : ¬ Found (ts.flatMap parts) .unknown)
    (x : Ty) : Found (parts (union ts)) x ↔ Kept (ts.flatMap parts) x := by
  rw [parts_union wf h, ← kept_distinctBy]
  rfl

theorem unknown_mem_parts {t : Ty} (h : t.WellFormed) : .unknown ∈ parts t ↔ t = .unknown := by
  cases t with
  | oneOf ms =>
    refine iff_of_false (fun hm => ?_) (by simp)
    simpa [isAlternative] using (wellFormed_oneOf.mp h).1.2.plain _ hm
  | _ => simp [parts, members]

theorem union_eq_unknown_iff {ts : List Ty} (wf : ∀ t ∈ ts, t.WellFormed) : union ts = .unknown ↔ .unknown ∈ ts := by
  have hfound : Found (ts.flatMap parts) .unknown ↔ .unknown ∈ ts := by
    rw [found_unknown, List.mem_flatMap]
    constructor
    · rintro ⟨t, ht, hm⟩
      exact (unknown_mem_parts (wf t ht)).mp hm ▸ ht
    · exact fun h => ⟨.unknown, h, by simp [parts, members]⟩
  rw [← hfound]
  refine ⟨fun h => ?_, union_of_unknown⟩
  by_contra hn
  have hparts := parts_union wf hn
  rw [h] at hparts
  have hplain := (reduced_union wf hn).plain .unknown
  rw [← hparts] at hplain
  simp [parts, members, isAlternative] at hplain

structure Regular (t : Ty) : Prop where
  wellFormed : t.WellFormed
  self : same t t = true

theorem regular_of_proper {ts : List Ty} (h : ∀ t ∈ ts, t.Proper) : ∀ t ∈ ts, t.Regular :=
  fun t ht => ⟨(h t ht).wellFormed, (h t ht).self⟩

theorem same_union_of_kept {ts us : List Ty} (st : ∀ t ∈ ts, same t t = true) (su : ∀ u ∈ us, same u u = true)
    (h : ∀ x, Kept (ts.flatMap parts) x ↔ Kept (us.flatMap parts) x) : same (union ts) (union us) = true := by
  have hunk : Found (ts.flatMap parts) .unknown ↔ Found (us.flatMap parts) .unknown := by
    rw [← kept_other rfl, h, kept_other rfl]
  by_cases hn : Found (ts.flatMap parts) .unknown
  · rw [union_of_unknown hn, union_of_unknown (hunk.mp hn), same]
  · have hn' := hunk.not.mp hn
    have self {vs : List Ty} (sv : ∀ t ∈ vs, same t t = true) :
        ∀ m ∈ normalized (distinctBy same (vs.flatMap parts)), same m m = true := by
      intro m hm
      rcases mem_of_mem_normalized hm with h | rfl
      · obtain ⟨t, ht, hmt⟩ := List.mem_flatMap.mp (mem_of_mem_distinctBy h)
        exact same_self_parts (sv t ht) hmt
      · rfl
    have hdistinct (vs : List Ty) := pairwise_normalized (pairwise_distinctBy same (vs.flatMap parts))
    rw [union_eq, union_eq, if_neg (unknown_mem_distinct.not.mpr hn), if_neg (unknown_mem_distinct.not.mpr hn')]
    refine same_collapse (hdistinct ts) (hdistinct us) (like_of_found (self st) (self su) fun x => ?_)
    exact (kept_distinctBy _ x).trans ((h x).trans (kept_distinctBy _ x).symm)

theorem same_self_union {ts : List Ty} (h : ∀ t ∈ ts, same t t = true) : same (union ts) (union ts) = true :=
  same_union_of_kept h h fun _ => Iff.rfl

theorem regular_union {ts : List Ty} (h : ∀ t ∈ ts, t.Regular) : (union ts).Regular :=
  ⟨wellFormed_union fun t ht => (h t ht).wellFormed, same_self_union fun t ht => (h t ht).self⟩

theorem like_members {x y : Ty} (h : same x y = true) : Like x.members y.members := by
  cases x with
  | oneOf ms =>
    obtain ⟨ns, rfl, hl⟩ := same_oneOf_left.mp h
    exact hl
  | _ =>
    have hy : y.members = [y] := by cases y <;> simp_all [same, members]
    rw [hy]
    exact like_single h

theorem like_parts {x y : Ty} (h : same x y = true) : Like (parts x) (parts y) := by
  cases x with
  | never =>
    obtain rfl := same_never_left.mp h
    simp [Like, parts]
  | _ =>
    have hy : parts y = y.members := by cases y <;> simp_all [same, parts]
    rw [hy]
    exact like_members h

theorem same_union_of_like {ts us : List Ty} (pt : ∀ t ∈ ts, t.Regular) (pu : ∀ u ∈ us, u.Regular) (h : Like ts us) :
    same (union ts) (union us) = true :=
  same_union_of_kept (fun t ht => (pt t ht).self) (fun u hu => (pu u hu).self)
    (kept_congr fun _ => (h.flatMap fun _ _ => like_parts).found)

theorem same_union_union {ts us : List Ty} (pt : ∀ t ∈ ts, t.Regular) (pu : ∀ u ∈ us, u.Regular) :
    same (union (union ts :: us)) (union (ts ++ us)) = true := by
  by_cases hn : Found (ts.flatMap parts) .unknown
  · have h₁ : union (union ts :: us) = .unknown := by
      refine union_of_unknown ?_
      simp [union_of_unknown hn, parts, members]
    have h₂ : union (ts ++ us) = .unknown := by
      refine union_of_unknown ?_
      rw [List.flatMap_append, found_append]
      exact .inl hn
    rw [h₁, h₂, same]
  · have st : ∀ t ∈ ts, same t t = true := fun t ht => (pt t ht).self
    have su : ∀ u ∈ us, same u u = true := fun u hu => (pu u hu).self
    refine same_union_of_kept (List.forall_mem_cons.mpr ⟨same_self_union st, su⟩)
      (List.forall_mem_append.mpr ⟨st, su⟩) fun x => ?_
    rw [List.flatMap_cons, List.flatMap_append, parts_union (fun t ht => (pt t ht).wellFormed) hn,
      kept_normalized_append]
    exact kept_congr (fun y => by simp only [found_append, found_distinctBy]) x

theorem same_union_of_mem_iff {ts us : List Ty} (pt : ∀ t ∈ ts, t.Regular) (h : ∀ t, t ∈ ts ↔ t ∈ us) :
    same (union ts) (union us) = true :=
  same_union_of_like pt (fun u hu => pt u ((h u).mpr hu)) (like_of_mem_iff (fun t ht => (pt t ht).self) h)

theorem same_union_pair {ts us : List Ty} (pt : ∀ t ∈ ts, t.Regular) (pu : ∀ u ∈ us, u.Regular) :
    same (union [union ts, union us]) (union (ts ++ us)) = true := by
  have pv : ∀ v ∈ [union us], v.Regular := by simpa using regular_union pu
  have h₁ : same (union (ts ++ [union us])) (union (union us :: ts)) = true :=
    same_union_of_mem_iff (List.forall_mem_append.mpr ⟨pt, pv⟩) fun t => by simp [or_comm]
  have h₂ : same (union (us ++ ts)) (union (ts ++ us)) = true :=
    same_union_of_mem_iff (List.forall_mem_append.mpr ⟨pu, pt⟩) fun t => by simp [or_comm]
  exact same_trans (same_union_union pt pv) (same_trans h₁ (same_trans (same_union_union pu pt) h₂))

theorem union_members {t : Ty} (h : t.WellFormed) : union t.members = t := by
  cases t with
  | oneOf ms =>
    obtain ⟨⟨hl, hr⟩, _⟩ := wellFormed_oneOf.mp h
    exact union_of_reduced hl hr
  | literal s =>
    cases s with
    | boolean b => cases b <;> rfl
    | _ => rfl
  | primitive q => cases q <;> rfl
  | _ => rfl

theorem union_congr_parts {ts us : List Ty} (h : ts.flatMap parts = us.flatMap parts) : union ts = union us := by
  rw [union_eq, union_eq, h]

theorem union_single {t : Ty} (h : t.WellFormed) : union [t] = t := by
  cases t with
  | oneOf ms =>
    obtain ⟨⟨_, hr⟩, _⟩ := wellFormed_oneOf.mp h
    have hflat : [oneOf ms].flatMap parts = ms.flatMap parts := by
      rw [flatMap_parts_of_plain hr.plain]
      exact List.flatMap_singleton _ _
    exact (union_congr_parts hflat).trans (union_members h)
  | _ => exact union_members h

theorem regular_members {t m : Ty} (h : t.Regular) (hm : m ∈ t.members) : m.Regular := by
  refine ⟨every_members h.wellFormed hm, ?_⟩
  cases t with
  | oneOf ms => exact same_self_parts h.self hm
  | _ => exact List.mem_singleton.mp hm ▸ h.self

section

variable {ts us : List Ty} {x y : Ty}

structure BothTruths (ts : List Ty) : Prop where
  whenTrue : bool true ∈ ts
  whenFalse : bool false ∈ ts
  apart : boolean ∉ ts

theorem any_boolean : ts.any (isPrimitive .boolean) = true ↔ boolean ∈ ts := by
  simp [boolean]

theorem foldBooleans_of_bothTruths (h : BothTruths ts) : foldBooleans ts = ts ++ [boolean] := by
  unfold foldBooleans
  rw [any_isBool.mpr h.whenTrue, any_isBool.mpr h.whenFalse, Bool.eq_false_iff.mpr (any_boolean.not.mpr h.apart)]
  rfl

theorem foldBooleans_of_not_bothTruths (h : ¬ BothTruths ts) : foldBooleans ts = ts := by
  unfold foldBooleans
  refine if_neg fun hc => h ?_
  obtain ⟨⟨ht, hf⟩, hb⟩ : (_ ∧ _) ∧ _ := by simpa only [Bool.and_eq_true, any_isBool] using hc
  exact ⟨ht, hf, fun hm => by rw [any_boolean.mpr hm] at hb; cases hb⟩

theorem bothTruths_iff : BothTruths ts ↔ Kept ts boolean ∧ boolean ∉ ts := by
  have hk : Kept ts boolean ↔ boolean ∈ ts ∨ bool true ∈ ts ∧ bool false ∈ ts := by
    rw [boolean, kept_primitive]
    simp
  rw [hk]
  constructor
  · exact fun h => ⟨.inr ⟨h.whenTrue, h.whenFalse⟩, h.apart⟩
  · rintro ⟨h, hb⟩
    exact ⟨(h.resolve_left hb).1, (h.resolve_left hb).2, hb⟩

theorem mem_foldBooleans_primitive {q : Primitive} : .primitive q ∈ foldBooleans flat ↔ Kept flat (.primitive q) := by
  simp [Kept, mem_normalized, absorbed]

def isLeft (flat : List Ty) (t : Ty) : Bool := !absorbed (foldBooleans flat) t

theorem isLeft_iff : isLeft flat x = true ↔ ∀ s, x = .literal s → ¬ Kept flat (.primitive s.primitive) := by
  simp only [isLeft, Bool.not_eq_true', Bool.eq_false_iff, ne_eq, absorbed_iff, mem_foldBooleans_primitive, not_exists,
    not_and]

theorem isLeft_anti (h : ∀ q, Kept ts (.primitive q) → Kept us (.primitive q)) (hx : isLeft us x = true) :
    isLeft ts x = true :=
  isLeft_iff.mpr fun s hs hk => isLeft_iff.mp hx s hs (h _ hk)

theorem isLeft_congr (h : ∀ x, Kept ts x ↔ Kept us x) : isLeft ts = isLeft us :=
  funext fun _ => Bool.eq_iff_iff.mpr ⟨isLeft_anti fun _ => (h _).mpr, isLeft_anti fun _ => (h _).mp⟩

theorem isLeft_of_same (h : same x y = true) : isLeft flat x = isLeft flat y := by
  have hle {x y : Ty} (h : same x y = true) (hx : isLeft flat x = true) : isLeft flat y = true := by
    refine isLeft_iff.mpr ?_
    rintro s rfl
    obtain ⟨s', rfl, hs⟩ := same_literal_left.mp (same_symm h)
    rw [Scalar.primitive_of_same hs]
    exact isLeft_iff.mp hx s' rfl
  exact Bool.eq_iff_iff.mpr ⟨hle h, hle (same_symm h)⟩

@[simp] theorem isLeft_boolean : isLeft flat boolean = true := rfl

theorem normalized_of_bothTruths (h : BothTruths flat) : normalized flat = flat.filter (isLeft flat) ++ [boolean] := by
  show (foldBooleans flat).filter (isLeft flat) = _
  rw [foldBooleans_of_bothTruths h, List.filter_append]
  rfl

theorem normalized_of_not_bothTruths (h : ¬ BothTruths flat) : normalized flat = flat.filter (isLeft flat) := by
  show (foldBooleans flat).filter (isLeft flat) = _
  rw [foldBooleans_of_not_bothTruths h]

theorem boolean_mem_distinctBy : boolean ∈ distinctBy same ts ↔ boolean ∈ ts := by
  rw [boolean, ← found_primitive, found_distinctBy, found_primitive]

theorem distinctBy_append_boolean (h : boolean ∉ ts) :
    distinctBy same (ts ++ [boolean]) = distinctBy same ts ++ [boolean] := by
  have hno : ts.any (same · boolean) = false := by
    refine List.any_eq_false.mpr fun t ht hb => h ?_
    obtain rfl : t = boolean := same_primitive_left.mp (same_symm hb)
    exact ht
  simp [distinctBy_append, distinctBy, hno]

theorem distinctBy_append_repeated (h : ∀ u ∈ us, Found ts u) : distinctBy same (ts ++ us) = distinctBy same ts := by
  rw [distinctBy_append, List.append_right_eq_self, List.filter_eq_nil_iff]
  intro u hu
  obtain ⟨t, ht, hut⟩ := h u (mem_of_mem_distinctBy hu)
  have hyes : ts.any (same · u) = true := List.any_eq_true.mpr ⟨t, ht, same_symm hut⟩
  simp [hyes]

theorem kept_append_normalized (us flat : List Ty) (x : Ty) :
    Kept (us ++ normalized (distinctBy same flat)) x ↔ Kept (us ++ flat) x := by
  have hcomm (ts : List Ty) : Kept (us ++ ts) x ↔ Kept (ts ++ us) x :=
    kept_congr (fun y => by simp only [found_append, or_comm]) x
  rw [hcomm, kept_normalized_append, hcomm]
  exact kept_congr (fun y => by simp only [found_append, found_distinctBy]) x

theorem normalized_append_normalized (us flat : List Ty) :
    normalized (distinctBy same (us ++ normalized (distinctBy same flat))) =
      normalized (distinctBy same (us ++ flat)) := by
  generalize hd : distinctBy same flat = d
  generalize hw : distinctBy same (us ++ flat) = w
  have hkept (x : Ty) : Kept (distinctBy same (us ++ normalized d)) x ↔ Kept w x := by
    rw [← hd, ← hw, kept_distinctBy, kept_distinctBy, kept_append_normalized]
  have hmore (q : Primitive) (h : Kept d (.primitive q)) : Kept w (.primitive q) := by
    rw [← hd] at h
    rw [← hw]
    simp only [kept_primitive, found_distinctBy, found_append] at h ⊢
    tauto
  have hfilter : (distinctBy same (us ++ d.filter (isLeft d))).filter (isLeft w) = w.filter (isLeft w) := by
    have h := filter_distinctBy_append (p := isLeft w) (q := isLeft d) (fun _ _ (h : same _ _ = true) => isLeft_of_same h)
      (fun _ => isLeft_anti hmore) us flat
    rwa [hd, hw] at h
  have hboolean : boolean ∈ w ↔ boolean ∈ us ∨ boolean ∈ d := by
    rw [← hd, ← hw, boolean_mem_distinctBy, boolean_mem_distinctBy, List.mem_append]
  by_cases hs : BothTruths d
  · rw [normalized_of_bothTruths hs] at hkept ⊢
    have hno : ¬ BothTruths (distinctBy same (us ++ (d.filter (isLeft d) ++ [boolean]))) := fun h =>
      h.apart (boolean_mem_distinctBy.mpr (by simp))
    rw [normalized_of_not_bothTruths hno, isLeft_congr hkept, ← List.append_assoc]
    by_cases hb : boolean ∈ us
    · have hfound : Found (us ++ d.filter (isLeft d)) boolean := found_append.mpr (.inl (found_primitive.mpr hb))
      rw [distinctBy_append_repeated (List.forall_mem_singleton.mpr hfound), hfilter]
      exact (normalized_of_not_bothTruths fun h => h.apart (hboolean.mpr (.inl hb))).symm
    · have hapart : boolean ∉ w := by simp [hboolean, hb, hs.apart]
      have hboth : BothTruths w := bothTruths_iff.mpr ⟨hmore _ (bothTruths_iff.mp hs).1, hapart⟩
      rw [distinctBy_append_boolean (by simp [hb, hs.apart]), List.filter_append, hfilter,
        normalized_of_bothTruths hboth]
      rfl
  · rw [normalized_of_not_bothTruths hs] at hkept ⊢
    have hboth : BothTruths (distinctBy same (us ++ d.filter (isLeft d))) ↔ BothTruths w := by
      rw [bothTruths_iff, bothTruths_iff, hkept, hboolean, boolean_mem_distinctBy]
      simp
    by_cases hb : BothTruths w
    · rw [normalized_of_bothTruths hb, normalized_of_bothTruths (hboth.mpr hb), isLeft_congr hkept, hfilter]
    · rw [normalized_of_not_bothTruths hb, normalized_of_not_bothTruths (hboth.not.mpr hb), isLeft_congr hkept, hfilter]

theorem union_congr_normalized (hu : Found (ts.flatMap parts) .unknown ↔ Found (us.flatMap parts) .unknown)
    (hn : normalized (distinctBy same (ts.flatMap parts)) = normalized (distinctBy same (us.flatMap parts))) :
    union ts = union us := by
  rw [union_eq, union_eq, hn]
  exact if_congr (by rw [unknown_mem_distinct, unknown_mem_distinct, hu]) rfl rfl

theorem union_append_union (h : ∀ m ∈ ts.flatMap parts, m = .unknown ∨ isAlternative m = true) :
    union (us ++ [union ts]) = union (us ++ ts) := by
  by_cases hu : Found (ts.flatMap parts) .unknown
  · have hl : Found ((us ++ [union ts]).flatMap parts) .unknown := by simp [union_of_unknown hu, parts, members]
    have hr : Found ((us ++ ts).flatMap parts) .unknown := by
      rw [List.flatMap_append]
      exact found_append.mpr (.inr hu)
    rw [union_of_unknown hl, union_of_unknown hr]
  · have hplain : ∀ m ∈ distinctBy same (ts.flatMap parts), isAlternative m = true := by
      intro m hm
      have hm := mem_of_mem_distinctBy hm
      exact (h m hm).resolve_left fun he => hu (found_unknown.mpr (he ▸ hm))
    have hparts : parts (union ts) = normalized (distinctBy same (ts.flatMap parts)) := by
      rw [union_eq, if_neg (unknown_mem_distinct.not.mpr hu),
        parts_collapse (reduced_normalized (pairwise_distinctBy same _) hplain).plain]
    have hfound : Found (normalized (distinctBy same (ts.flatMap parts))) .unknown ↔
        Found (ts.flatMap parts) .unknown := (kept_other rfl).trans found_distinctBy
    refine union_congr_normalized ?_ ?_
    · simp only [List.flatMap_append, List.flatMap_singleton, found_append, hparts, hfound]
    · simp only [List.flatMap_append, List.flatMap_singleton, hparts, normalized_append_normalized]

theorem union_cons_union {t : Ty} (h : ∀ m ∈ ts.flatMap parts, m = .unknown ∨ isAlternative m = true) :
    union [t, union ts] = union (t :: ts) :=
  show union ([t] ++ [union ts]) = union ([t] ++ ts) from union_append_union h

def AbsorbedBy (t u : Ty) : Prop := same (union [t, u]) u = true

theorem absorbedBy_union {t : Ty} (hp : ∀ m ∈ ts.flatMap parts, m = .unknown ∨ isAlternative m = true)
    (hs : ∀ t ∈ ts, same t t = true) (ht : t ∈ ts) : t.AbsorbedBy (union ts) := by
  unfold AbsorbedBy
  rw [union_cons_union hp]
  refine same_union_of_kept (List.forall_mem_cons.mpr ⟨hs t ht, hs⟩) hs (kept_congr fun x => ?_)
  rw [List.flatMap_cons, found_append, or_iff_right_of_imp]
  exact fun hx => hx.mono fun m hm => List.mem_flatMap.mpr ⟨t, ht, hm⟩

theorem union_insert_never (ts us : List Ty) : union (ts ++ .never :: us) = union (ts ++ us) := by
  apply union_congr_parts
  simp [parts]

theorem union_insert_unknown (ts us : List Ty) : union (ts ++ .unknown :: us) = .unknown := by
  apply union_of_unknown
  rw [found_unknown]
  exact List.mem_flatMap.mpr ⟨.unknown, by simp, by simp [parts, members]⟩

theorem union_repeated {t : Ty} (h : t.Regular) : union [t, t] = t := by
  have hfound : ∀ m ∈ parts t, Found (parts t) m := fun m hm => found_of_mem hm (same_self_parts h.self hm)
  have hflat : distinctBy same ([t, t].flatMap parts) = distinctBy same ([t].flatMap parts) := by
    simp only [List.flatMap_cons, List.flatMap_nil, List.append_nil]
    exact distinctBy_append_repeated hfound
  calc union [t, t] = union [t] := by rw [union_eq, union_eq, hflat]
    _ = t := union_single h.wellFormed

theorem union_is_semilattice (as bs : List Ty) (t : Ty) (wf : ∀ a ∈ as ++ bs, a.WellFormed)
    (nan : ∀ a ∈ as ++ bs, a.NanFree) (wt : t.WellFormed) (nt : t.NanFree) :
    (Like as bs → same (union as) (union bs) = true) ∧
    same (union [union as, union bs]) (union (as ++ bs)) = true ∧
    (union (as ++ .never :: bs) = union (as ++ bs) ∧ union [.never, t] = t) ∧
    union (as ++ .unknown :: bs) = .unknown ∧
    union [t, t] = t := by
  have pr : ∀ a ∈ as ++ bs, a.Regular := regular_of_proper fun a ha => ⟨wf a ha, nan a ha⟩
  obtain ⟨pa, pb⟩ := List.forall_mem_append.mp pr
  refine ⟨same_union_of_like pa pb, same_union_pair pa pb, ⟨union_insert_never as bs, ?_⟩,
    union_insert_unknown as bs, union_repeated ⟨wt, same_self nt⟩⟩
  exact (union_insert_never [] [t]).trans (union_single wt)

theorem union_is_semilattice_truth_values :
    same (union [bool true, .oneOf [int 1, text "a"]]) (union [.oneOf [text "a", int 1], bool true, bool true]) = true ∧
    same (union [union [bool true, .oneOf [int 1, text "a"]], union [.oneOf [text "a", int 1], bool true, bool true]])
      (union [bool true, .oneOf [int 1, text "a"], .oneOf [text "a", int 1], bool true, bool true]) = true := by
  have hlike : Like [bool true, .oneOf [int 1, text "a"]] [.oneOf [text "a", int 1], bool true, bool true] := by
    unfold Like
    decide
  have h := union_is_semilattice [bool true, .oneOf [int 1, text "a"]] [.oneOf [text "a", int 1], bool true, bool true]
    (.array (bool false)) (by decide) (by decide) (by decide) (by decide)
  exact ⟨h.1 hlike, h.2.1⟩

end

section

variable {A : List Ty} {t : Ty}

theorem reduced_parts (wf : t.WellFormed) (hu : t ≠ .unknown) : Reduced (parts t) := by
  have hone : ∀ x ∈ [t], x.WellFormed := List.forall_mem_singleton.mpr wf
  have hunknown : ¬ Found ([t].flatMap parts) .unknown := by
    rw [found_unknown, List.flatMap_singleton, unknown_mem_parts wf]
    exact hu
  have h := reduced_union hone hunknown
  rwa [← parts_union hone hunknown, union_single wf] at h

theorem flatMap_parts_undefined (t : Ty) : [t, undefined].flatMap parts = parts t ++ [undefined] := by
  simp [parts, members, undefined]

theorem isOptional_collapse (h : undefined ∈ A) : (collapse A).isOptional = true := by
  match A with
  | [] => simp at h
  | [m] =>
    rw [← List.mem_singleton.mp h]
    rfl
  | _ :: _ :: _ => exact List.any_eq_true.mpr ⟨undefined, h, rfl⟩

theorem isOptional_union_undefined (t : Ty) : (union [t, undefined]).isOptional = true ↔ .unknown ∉ parts t := by
  have hfound : Found ([t, undefined].flatMap parts) .unknown ↔ .unknown ∈ parts t := by
    rw [flatMap_parts_undefined, found_unknown]
    simp [undefined]
  by_cases hu : .unknown ∈ parts t
  · rw [union_of_unknown (hfound.mpr hu)]
    exact iff_of_false (by decide) (not_not_intro hu)
  · have hkept : Kept (distinctBy same ([t, undefined].flatMap parts)) (.primitive .undefined) := by
      rw [kept_distinctBy, kept_primitive, flatMap_parts_undefined]
      exact .inl (by simp [undefined])
    rw [union_eq, if_neg (unknown_mem_distinct.not.mpr (hfound.not.mpr hu))]
    exact iff_of_true (isOptional_collapse (found_primitive.mp hkept)) hu

theorem union_undefined_of_mem (wf : t.WellFormed) (h : undefined ∈ parts t) : union [t, undefined] = t := by
  have hfound : ∀ u ∈ [undefined], Found (parts t) u :=
    List.forall_mem_singleton.mpr (found_of_mem h rfl)
  have hflat : distinctBy same ([t, undefined].flatMap parts) = distinctBy same ([t].flatMap parts) := by
    rw [flatMap_parts_undefined, List.flatMap_singleton]
    exact distinctBy_append_repeated hfound
  calc union [t, undefined] = union [t] := by rw [union_eq, union_eq, hflat]
    _ = t := union_single wf

theorem reduced_append_undefined (hr : Reduced A) (h : undefined ∉ A) : Reduced (A ++ [undefined]) where
  distinct := by
    refine List.pairwise_append.mpr ⟨hr.distinct, List.pairwise_singleton _ _, fun a ha b hb => ?_⟩
    obtain rfl := List.mem_singleton.mp hb
    refine Bool.eq_false_iff.mpr fun hs => h ?_
    obtain rfl : a = undefined := same_primitive_left.mp (same_symm hs)
    exact ha
  plain := List.forall_mem_append.mpr ⟨hr.plain, List.forall_mem_singleton.mpr rfl⟩
  unabsorbed := by
    have hkeep (m : Ty) : absorbed (A ++ [undefined]) m = absorbed A m := by
      cases m with
      | literal s => cases s <;> simp [absorbed, undefined, isPrimitive, Scalar.primitive]
      | _ => rfl
    rw [List.forall_mem_append, List.forall_mem_singleton]
    exact ⟨fun m hm => (hkeep m).trans (hr.unabsorbed m hm), rfl⟩
  unfolded := by
    simpa [undefined, bool] using hr.unfolded

theorem parts_union_undefined (wf : t.WellFormed) (hu : t ≠ .unknown) (h : undefined ∉ parts t) :
    parts (union [t, undefined]) = parts t ++ [undefined] := by
  have hr := reduced_append_undefined (reduced_parts wf hu) h
  have hwf : ∀ x ∈ [t, undefined], x.WellFormed := by simpa [undefined] using wf
  have hunknown : ¬ Found ([t, undefined].flatMap parts) .unknown := by
    rw [flatMap_parts_undefined, found_unknown]
    exact fun hm => by simpa [isAlternative] using hr.plain _ hm
  rw [parts_union hwf hunknown, flatMap_parts_undefined, distinctBy_of_pairwise hr.distinct, normalized_of_reduced hr]

end

end Casewise.Ty
