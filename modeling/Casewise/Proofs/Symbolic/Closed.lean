import Casewise.Proofs.Merged
import Casewise.Symbolic.Builtin
import Casewise.Symbolic.Member
import Casewise.Symbolic.Narrowing

/-!
Conditions on types that no operation of a run breaks. Such a condition passes from containers to what is inside
them and back, and holds of unions, records and widened types; then the operators, the sequences, the methods, the
built-in functions and the parts that tests select keep it.
-/

namespace Casewise

def Yields {ε α : Type} (x : Except ε α) (P : α → Prop) : Prop := ∀ a, x = .ok a → P a

section

variable {ε α β : Type} {P : α → Prop} {Q : β → Prop}

theorem yields_ok {a : α} (h : P a) : Yields (.ok a : Except ε α) P := by
  intro b hb
  cases hb
  exact h

theorem yields_error {e : ε} : Yields (.error e : Except ε α) P := nofun

theorem Yields.bind {x : Except ε α} {f : α → Except ε β} (hx : Yields x P) (hf : ∀ a, P a → Yields (f a) Q) :
    Yields (x >>= f) Q := by
  cases x with
  | error e => exact yields_error
  | ok a => exact hf a (hx a rfl)

theorem yields_bind {x : Except ε α} {f : α → Except ε β} (hf : ∀ a, Yields (f a) Q) : Yields (x >>= f) Q :=
  Yields.bind (P := fun _ => True) (fun _ _ => trivial) fun a _ => hf a

theorem yields_mapM {f : α → Except ε β} {as : List α} (h : ∀ a ∈ as, Yields (f a) Q) :
    Yields (as.mapM f) fun bs => ∀ b ∈ bs, Q b := by
  induction as with
  | nil => exact yields_ok (by simp)
  | cons a as ih =>
    obtain ⟨ha, has⟩ := List.forall_mem_cons.mp h
    rw [List.mapM_cons]
    refine ha.bind fun b hb => (ih has).bind fun bs hbs => yields_ok ?_
    exact List.forall_mem_cons.mpr ⟨hb, hbs⟩

end

theorem mem_of_at? {α : Type} {xs : List α} {i : Int} {x : α} (h : at? xs i = some x) : x ∈ xs := by
  unfold at? at h
  dsimp only at h
  generalize (if i < 0 then i + xs.length else i) = j at h
  split at h
  · cases h
  · exact List.mem_of_getElem? h

theorem mem_of_slice? {α : Type} {xs ys : List α} {first last step : Option Int} {y : α}
    (h : slice? xs first last step = some ys) (hy : y ∈ ys) : y ∈ xs := by
  have stepped {first step : Int} {count : Nat} (hm : y ∈ steppedFrom xs first step count) : y ∈ xs := by
    obtain ⟨k, _, hk⟩ := List.mem_filterMap.mp hm
    exact List.mem_of_getElem? hk
  unfold slice? at h
  dsimp only at h
  split at h
  · cases h
  · split at h <;> (obtain rfl := Option.some.inj h; exact stepped hy)

namespace Ty

def MethodMeets (K : Ty → Prop) (r : MethodResult) : Prop := K r.returns ∧ ∀ u, r.changed = some u → K u

structure Closed (K : Ty → Prop) : Prop where
  primitive : ∀ p, K (.primitive p)
  literal : ∀ {s : Scalar}, s.same s = true → K (.literal s)
  unknown : K .unknown
  never : K .never
  array : ∀ {e}, K (.array e) ↔ K e
  tuple : ∀ {es}, K (.tuple es) ↔ ∀ e ∈ es, K e
  function : ∀ {ps r}, K (.function ps r) ↔ K r ∧ ∀ p ∈ ps, K p
  member : ∀ {ms}, K (.oneOf ms) → ∀ m ∈ ms, K m
  field : ∀ {fs}, K (.object fs) → ∀ f ∈ fs, K f.2
  union : ∀ {ts}, (∀ t ∈ ts, K t) → K (union ts)
  record : ∀ {fs}, (∀ f ∈ fs, K f.2) → K (record fs)
  widen : ∀ {t}, K t → K t.widen

structure Permissive (K : Ty → Prop) : Prop extends Closed K where
  scalar : ∀ s, K (.literal s)

theorem permissive_wellFormed : Permissive WellFormed where
  primitive := wellFormed_primitive
  literal _ := wellFormed_literal _
  scalar := wellFormed_literal
  unknown := wellFormed_unknown
  never := wellFormed_never
  array := wellFormed_array
  tuple := wellFormed_tuple
  function := wellFormed_function
  member h := (wellFormed_oneOf.mp h).2
  field h := (wellFormed_object.mp h).2
  union := wellFormed_union
  record := wellFormed_record
  widen := wellFormed_widen

theorem permissive_true : Permissive fun _ => True where
  primitive _ := trivial
  literal _ := trivial
  scalar _ := trivial
  unknown := trivial
  never := trivial
  array := .rfl
  tuple := by simp
  function := by simp
  member _ _ _ := trivial
  field _ _ _ := trivial
  union _ := trivial
  record _ := trivial
  widen _ := trivial

def hasPlainMembers : Ty → Bool
  | .oneOf ms => ms.all isAlternative
  | _ => true

def Flat (t : Ty) : Prop := t.every true hasPlainMembers = true

instance (t : Ty) : Decidable t.Flat := inferInstanceAs (Decidable (_ = true))

section

variable {t m e r : Ty} {ms ps ts : List Ty} {fs : List (String × Ty)}

theorem flat_oneOf : Flat (.oneOf ms) ↔ (∀ m ∈ ms, isAlternative m = true) ∧ ∀ m ∈ ms, m.Flat := by
  simp only [Flat, every, everyAll_iff, hasPlainMembers, Bool.and_eq_true, List.all_eq_true]

@[simp] theorem flat_object : Flat (.object fs) ↔ ∀ f ∈ fs, f.2.Flat := by
  simp [Flat, every, everyField_iff, hasPlainMembers]

@[simp] theorem flat_array : Flat (.array e) ↔ e.Flat := by
  simp [Flat, every, hasPlainMembers]

@[simp] theorem flat_tuple : Flat (.tuple ms) ↔ ∀ m ∈ ms, m.Flat := by
  simp [Flat, every, everyAll_iff, hasPlainMembers]

@[simp] theorem flat_function : Flat (.function ps r) ↔ r.Flat ∧ ∀ p ∈ ps, p.Flat := by
  simp [Flat, every, everyAll_iff, hasPlainMembers]

theorem flat_parts (h : t.Flat) (hm : m ∈ parts t) : m.Flat ∧ (m = .unknown ∨ isAlternative m = true) := by
  cases t with
  | oneOf ms =>
    obtain ⟨hp, hf⟩ := flat_oneOf.mp h
    exact ⟨hf m hm, .inr (hp m hm)⟩
  | never => simp [parts] at hm
  | unknown =>
    obtain rfl := List.mem_singleton.mp hm
    exact ⟨h, .inl rfl⟩
  | _ =>
    obtain rfl := List.mem_singleton.mp hm
    exact ⟨h, .inr rfl⟩

theorem flat_union (h : ∀ t ∈ ts, t.Flat) : (union ts).Flat := by
  have hflat {m : Ty} (hm : m ∈ distinctBy same (ts.flatMap parts)) :
      m.Flat ∧ (m = .unknown ∨ isAlternative m = true) := by
    obtain ⟨t, ht, hmt⟩ := List.mem_flatMap.mp (mem_of_mem_distinctBy hm)
    exact flat_parts (h t ht) hmt
  rw [union_eq]
  split
  · rfl
  · next hu =>
    have hkept : ∀ m ∈ normalized (distinctBy same (ts.flatMap parts)), m.Flat ∧ isAlternative m = true := by
      intro m hm
      rcases mem_of_mem_normalized hm with hm | rfl
      · refine ⟨(hflat hm).1, (hflat hm).2.resolve_left ?_⟩
        rintro rfl
        exact hu (any_isUnknown.mpr hm)
      · exact ⟨rfl, rfl⟩
    generalize normalized (distinctBy same (ts.flatMap parts)) = ms at hkept
    match ms, hkept with
    | [], _ => rfl
    | [m], hkept => exact (hkept m (by simp)).1
    | m :: n :: ms, hkept => exact flat_oneOf.mpr ⟨fun k hm => (hkept k hm).2, fun k hm => (hkept k hm).1⟩

theorem flat_widen (h : t.Flat) : (widen t).Flat := by
  induction t using induct with
  | oneOf ms ih =>
    rw [widen, widenAll_eq_map]
    refine flat_union (List.forall_mem_map.mpr fun m hm => ih m hm ?_)
    exact (flat_oneOf.mp h).2 m hm
  | object fs ih =>
    rw [widen, widenFields_eq_map, flat_object, List.forall_mem_map]
    exact fun f hf => ih f hf (flat_object.mp h f hf)
  | array e ih => exact flat_array.mpr (ih (flat_array.mp h))
  | tuple es ih =>
    rw [widen, widenAll_eq_map, flat_tuple, List.forall_mem_map]
    exact fun e he => ih e he (flat_tuple.mp h e he)
  | literal s => rfl
  | _ => exact h

theorem permissive_flat : Permissive Flat where
  primitive _ := rfl
  literal _ := rfl
  scalar _ := rfl
  unknown := rfl
  never := rfl
  array := flat_array
  tuple := flat_tuple
  function := flat_function
  member h := (flat_oneOf.mp h).2
  field h := flat_object.mp h
  union := flat_union
  record {fs} h := flat_object.mpr fun f hf =>
    Bindings.forall_mem_update (p := Flat) fs (by simp) h f (mem_sortBy.mp hf)
  widen := flat_widen

end

section

variable {σ : Type} {f : Number → StateM σ Number}

theorem isAlternative_mapNumbers (t : Ty) (s : σ) : isAlternative ((t.mapNumbers f).run s).1 = isAlternative t := by
  cases t <;> rfl

theorem forall_mapAll {ts : List Ty} {P Q : Ty → Prop} (h : ∀ t ∈ ts, P t → ∀ s, Q ((t.mapNumbers f).run s).1)
    (hp : ∀ t ∈ ts, P t) (s : σ) : ∀ u ∈ ((mapAll f ts).run s).1, Q u := by
  induction ts generalizing s with
  | nil => exact fun _ hu => nomatch hu
  | cons t ts ih =>
    refine List.forall_mem_cons.mpr ⟨h t (by simp) (hp t (by simp)) s, ?_⟩
    exact ih (fun t ht => h t (by simp [ht])) (fun t ht => hp t (by simp [ht])) ((t.mapNumbers f).run s).2

theorem forall_mapFields {fs : List (String × Ty)} {P Q : Ty → Prop}
    (h : ∀ g ∈ fs, P g.2 → ∀ s, Q ((g.2.mapNumbers f).run s).1) (hp : ∀ g ∈ fs, P g.2) (s : σ) :
    ∀ u ∈ ((mapFields f fs).run s).1, Q u.2 := by
  induction fs generalizing s with
  | nil => exact fun _ hu => nomatch hu
  | cons g fs ih =>
    refine List.forall_mem_cons.mpr ⟨h g (by simp) (hp g (by simp)) s, ?_⟩
    exact ih (fun g hg => h g (by simp [hg])) (fun g hg => hp g (by simp [hg])) ((g.2.mapNumbers f).run s).2

theorem flat_mapNumbers {t : Ty} (h : t.Flat) (s : σ) : ((t.mapNumbers f).run s).1.Flat := by
  induction t using induct generalizing s with
  | oneOf ms ih =>
    obtain ⟨hp, hf⟩ := flat_oneOf.mp h
    refine flat_oneOf.mpr ⟨forall_mapAll (fun m _ hm s => ?_) hp s, forall_mapAll ih hf s⟩
    exact (isAlternative_mapNumbers m s).trans hm
  | object fs ih => exact flat_object.mpr (forall_mapFields ih (flat_object.mp h) s)
  | array e ih => exact flat_array.mpr (ih (flat_array.mp h) s)
  | tuple es ih => exact flat_tuple.mpr (forall_mapAll ih (flat_tuple.mp h) s)
  | function ps r hps hr =>
    obtain ⟨hfr, hfp⟩ := flat_function.mp h
    exact flat_function.mpr ⟨hr hfr _, forall_mapAll hps hfp s⟩
  | _ => exact h

end

namespace Closed

variable {K : Ty → Prop} (h : Closed K) {t l r : Ty}

include h

theorem truth (b : Bool) : K (bool b) := h.literal (Scalar.same_self rfl)

theorem string (s : String) : K (text s) := h.literal (Scalar.same_self rfl)

theorem integer (n : Int) : K (int n) := h.literal (Scalar.same_self rfl)

theorem members (ht : K t) {m : Ty} (hm : m ∈ t.members) : K m := by
  cases t with
  | oneOf ms => exact h.member ht m hm
  | _ => exact List.mem_singleton.mp hm ▸ ht

theorem sortedMembers (ht : K t) : Yields t.sortedMembers fun ms => ∀ m ∈ ms, K m := by
  intro ms hms m hm
  have hs : t.sortedMembers? = some ms := by
    cases ht : t.sortedMembers? with
    | none => simp [Ty.sortedMembers, orTooLong, ht] at hms
    | some ns => simpa [Ty.sortedMembers, orTooLong, ht] using hms
  have hb : byName t = ms := by simp [byName, hs]
  exact h.members ht (mem_byName.mp (hb ▸ hm))

theorem eachMember {rule : Ty → Except Fault Ty} (ht : K t) (hr : ∀ m, K m → Yields (rule m) K) :
    Yields (t.eachMember rule) K := by
  cases t with
  | oneOf ms => exact (yields_mapM fun m hm => hr m (h.member ht m hm)).bind fun ts hts => yields_ok (h.union hts)
  | _ => exact hr _ ht

theorem distribute {rule : Ty → Ty → Except Fault Ty} (hl : K l) (hr : K r)
    (hrule : ∀ a b, K a → K b → Yields (rule a b) K) : Yields (distribute rule l r) K := by
  refine (h.sortedMembers hl).bind fun ls hls => (h.sortedMembers hr).bind fun rs hrs => ?_
  have hrow (a : Ty) (ha : a ∈ ls) : Yields (rs.mapM (rule a)) fun ts => ∀ t ∈ ts, K t :=
    yields_mapM fun b hb => hrule a b (hls a ha) (hrs b hb)
  exact (yields_mapM hrow).bind fun results hres => yields_ok (h.union (List.forall_mem_flatten.mpr hres))

omit h in
theorem mismatch {α : Type} {P : α → Prop} (symbol : String) (l r : Ty) : Yields (mismatch symbol l r) P :=
  yields_bind fun _ => yields_bind fun _ => yields_error

theorem repeated (ht : K t) : K t.repeated := by
  cases t with
  | tuple es => exact h.array.mpr (h.union (h.tuple.mp ht))
  | _ => exact ht

theorem concatenated (hl : K l) (hr : K r) (ht : concatenated l r = some t) : K t := by
  unfold Ty.concatenated at ht
  split at ht
  · obtain rfl := Option.some.inj ht
    exact h.tuple.mpr (List.forall_mem_append.mpr ⟨h.tuple.mp hl, h.tuple.mp hr⟩)
  · obtain rfl := Option.some.inj ht
    refine h.array.mpr (h.union ?_)
    simpa using ⟨h.array.mp hl, h.array.mp hr⟩
  · split at ht
    · obtain rfl := Option.some.inj ht
      exact h.primitive _
    · cases ht

theorem multiplied (hl : K l) (hr : K r) (ht : multiplied l r = some t) : K t := by
  unfold Ty.multiplied at ht
  split at ht
  · obtain rfl := Option.some.inj ht
    exact h.primitive _
  · split at ht
    · obtain rfl := Option.some.inj ht
      exact h.repeated hl
    · split at ht
      · obtain rfl := Option.some.inj ht
        exact h.repeated hr
      · cases ht

theorem kindResult {op : BinaryOp} (hl : K l) (hr : K r) (ht : kindResult op l r = some t) : K t := by
  unfold Ty.kindResult at ht
  split at ht
  · split at ht <;> (obtain rfl := Option.some.inj ht; exact h.primitive _)
  · split at ht
    · exact h.concatenated hl hr ht
    · exact h.multiplied hl hr ht
    · split at ht
      · obtain rfl := Option.some.inj ht
        exact h.primitive _
      · cases ht
    · cases ht

theorem comparedTo (op : CompareOp) (l r : Ty) : K (comparedTo op l r) := by
  unfold Ty.comparedTo
  split
  · cases Scalar.foldCompare _ _ _
    · exact h.primitive _
    · exact h.truth _
  · exact h.primitive _

theorem containment (op : CompareOp) (negated : Bool) (l r : Ty) : Yields (containment op negated l r) K := by
  unfold Ty.containment
  split
  · exact mismatch _ _ _
  · split
    · exact yields_bind fun _ => yields_error
    · refine yields_ok ?_
      unfold contained
      split
      · exact h.truth _
      · exact h.primitive _

theorem compareSingle (op : CompareOp) (l r : Ty) : Yields (compareSingle op l r) K := by
  unfold Ty.compareSingle
  split
  · exact yields_ok h.never
  · split
    · exact yields_ok (h.primitive _)
    · split
      · exact yields_ok (h.comparedTo _ l r)
      · exact yields_ok (h.comparedTo _ l r)
      · exact yields_ok (h.primitive _)
      · exact yields_ok (h.primitive _)
      · exact h.containment _ _ l r
      · exact h.containment _ _ l r
      · exact yields_error
      · split
        · exact yields_ok (h.comparedTo _ l r)
        · exact mismatch _ _ _

theorem compare (op : CompareOp) (hl : K l) (hr : K r) : Yields (compare op l r) K := by
  unfold Ty.compare
  split
  · exact yields_ok h.never
  · split
    · exact yields_ok (h.primitive _)
    · split
      · exact h.distribute hl hr fun a b _ _ => h.compareSingle op a b
      · exact h.compareSingle op l r

theorem itemsOf (ht : K t) : Yields t.itemsOf K := by
  refine h.eachMember ht fun m hm => ?_
  unfold itemsOfSingle
  split
  · exact yields_ok h.unknown
  · exact yields_ok h.never
  · exact yields_ok (h.array.mp hm)
  · exact yields_ok (h.union (h.tuple.mp hm))
  · exact yields_ok (h.primitive _)
  · exact yields_ok (h.union (List.forall_mem_map.mpr fun f _ => h.string _))
  · split
    · exact yields_ok (h.primitive _)
    · exact yields_bind fun _ => yields_error

theorem called (ht : K t) : Yields t.called K := by
  refine h.eachMember ht fun m hm => ?_
  unfold calledSingle
  split
  · exact yields_ok h.unknown
  · exact yields_ok h.never
  · exact yields_ok (h.function.mp hm).1
  · exact yields_bind fun _ => yields_error

theorem length (t : Ty) : Yields t.length K := by
  unfold Ty.length
  split
  · exact yields_ok (h.integer _)
  · exact yields_ok (h.integer _)
  · exact yields_bind fun _ => yields_ok (h.primitive _)

theorem sliced (bounds : Option SliceBounds) (ht : K t) : Yields (t.sliced bounds) K := by
  refine h.eachMember ht fun m hm => ?_
  unfold slicedSingle
  split
  · exact yields_ok h.unknown
  · exact yields_ok h.never
  · split
    · exact yields_ok (h.array.mpr (h.union (h.tuple.mp hm)))
    · split
      · next part hs => exact yields_ok (h.tuple.mpr fun e he => h.tuple.mp hm e (mem_of_slice? hs he))
      · exact yields_error
  · exact yields_ok hm
  · split
    · exact yields_ok (h.primitive _)
    · exact yields_bind fun _ => yields_error

theorem indexed (index : Ty) (ht : K t) : Yields (t.indexed index) K := by
  unfold Ty.indexed
  split
  · refine yields_bind fun _ => ?_
    split
    · exact yields_ok (h.union (h.tuple.mp ht))
    · split
      · next e he => exact yields_ok (h.tuple.mp ht e (mem_of_at? he))
      · exact yields_error
  · exact yields_bind fun _ => yields_ok (h.array.mp ht)
  · refine yields_bind fun _ => yields_ok ?_
    unfold charAt
    split
    · exact h.string _
    · exact h.primitive _
  · split
    · exact yields_bind fun _ => yields_ok (h.primitive _)
    · exact yields_bind fun _ => yields_error

theorem sameShape (ht : K t) : K t.sameShape := by
  unfold Ty.sameShape
  split
  · next ms =>
    split
    · next row rows hr =>
      split
      · have hrows := mapM_eq_map (g := fun m => (sameShape.tupleItems? m).getD []) (fun a b hab => by simp [hab]) hr
        have hitems : ∀ es ∈ row :: rows, ∀ e ∈ es, K e := by
          rw [hrows, List.forall_mem_map]
          intro m hm e he
          have hk := h.member ht m hm
          cases m with
          | tuple es => exact h.tuple.mp hk e he
          | _ => simp [sameShape.tupleItems?] at he
        refine h.tuple.mpr (List.forall_mem_map.mpr fun i _ => h.union fun e he => ?_)
        obtain ⟨es, hes, hi⟩ := List.mem_filterMap.mp he
        exact hitems es hes e (List.mem_of_getElem? hi)
      · exact ht
    · exact ht
  · exact ht

theorem unpackedItems {items : List Ty} (starred : List Bool) (hi : ∀ t ∈ items, K t) :
    Yields (unpackedItems items starred) fun ts => ∀ t ∈ ts, K t := by
  unfold Ty.unpackedItems
  dsimp only
  split
  · split
    · exact yields_error
    · split
      · exact yields_error
      · exact yields_ok hi
  · next star _ =>
    split
    · exact yields_error
    · have htake {n : Nat} : ∀ t ∈ items.take n, K t := fun t ht => hi t (List.mem_of_mem_take ht)
      refine yields_ok (List.forall_mem_append.mpr ⟨List.forall_mem_append.mpr ⟨htake, ?_⟩, ?_⟩)
      · refine List.forall_mem_singleton.mpr (h.array.mpr (h.union fun t ht => ?_))
        exact htake t (List.mem_of_mem_drop ht)
      · refine List.forall_mem_map.mpr fun p hp => ?_
        have ht : K p.1 := hi _ (List.mem_of_mem_drop (List.of_mem_zip hp).1)
        split
        · exact h.array.mpr ht
        · exact ht

theorem unpackedAlike (starred : List Bool) (ht : K t) : ∀ u ∈ unpackedAlike t starred, K u := by
  refine List.forall_mem_map.mpr fun s _ => ?_
  split
  · exact h.array.mpr ht
  · exact ht

theorem toText (name : String) (args : List Ty) : Yields (Builtin.toText name args) K := by
  unfold Builtin.toText
  split
  · exact yields_ok (h.string _)
  · split
    · exact yields_bind fun _ => yields_ok (h.string _)
    · exact yields_ok (h.primitive _)
  · exact yields_ok (h.primitive _)

variable {args : List Ty} (ha : ∀ t ∈ args, K t)

include ha

theorem collected (name : String) : Yields (Builtin.collected name args) K := by
  unfold Builtin.collected
  split
  · refine yields_ok ?_
    split
    · exact h.tuple.mpr (by simp)
    · exact h.array.mpr h.never
  · next arg _ =>
    have harg : K arg := ha arg (by simp)
    split
    · exact yields_ok harg
    · exact h.itemsOf harg
    · exact (h.itemsOf harg).bind fun t ht => yields_ok (h.array.mpr ht)

theorem addedBy (method : String) : Yields (addedBy method args) K := by
  unfold Ty.addedBy
  split
  · exact h.itemsOf (ha _ (by simp))
  · refine yields_ok ?_
    cases hl : args.getLast? with
    | none => exact h.never
    | some a => exact ha a (List.mem_of_getLast? hl)

theorem listMethod (method : String) (ht : K t) : Yields (listMethod t method args) (MethodMeets K) := by
  have helement : K t.element := by
    cases t with
    | array e => exact h.array.mp ht
    | tuple es => exact h.union (h.tuple.mp ht)
    | _ => exact h.never
  have hgrown (name : String) :
      Yields (do return ⟨null, some (.array (Ty.union [t.element, ← Ty.addedBy name args]))⟩) (MethodMeets K) := by
    refine (h.addedBy ha name).bind fun u hu => yields_ok ⟨h.primitive _, fun v hv => ?_⟩
    obtain rfl := Option.some.inj hv
    exact h.array.mpr (h.union (by simpa using ⟨helement, hu⟩))
  unfold Ty.listMethod
  split
  case h_4 => exact yields_ok ⟨helement, nofun⟩
  case h_7 => exact yields_ok ⟨ht, nofun⟩
  case h_12 => exact yields_ok ⟨h.unknown, nofun⟩
  any_goals exact hgrown _
  all_goals exact yields_ok ⟨h.primitive _, nofun⟩

omit ha in
theorem lookedUp {fields : Bindings Ty} {key fallback : Ty} (hf : ∀ f ∈ fields, K f.2) (hd : K fallback) :
    K (lookedUp fields key fallback) := by
  unfold Ty.lookedUp
  split
  · next k _ =>
    cases hg : fields.get? k with
    | none => exact hd
    | some t => exact hf _ (Bindings.mem_of_get? hg)
  · refine h.union (List.forall_mem_append.mpr ⟨List.forall_mem_map.mpr hf, ?_⟩)
    simpa using hd

theorem dictMethod (method : String) {fields : Bindings Ty} (ht : K (.object fields)) :
    MethodMeets K (dictMethod fields method args) := by
  have hf := h.field ht
  have hsecond {d : Ty} (hd : K d) : K (args[1]?.getD d) := by
    cases hl : args[1]? with
    | none => exact hd
    | some a => exact ha a (List.mem_of_getElem? hl)
  have hvalues : K (Ty.union (fields.map (·.2))) := h.union (List.forall_mem_map.mpr hf)
  unfold Ty.dictMethod
  dsimp only
  split
  · exact ⟨h.lookedUp hf (hsecond (h.primitive _)), nofun⟩
  · exact ⟨h.lookedUp hf (hsecond h.never), nofun⟩
  · exact ⟨h.lookedUp hf (hsecond h.never), nofun⟩
  · exact ⟨h.array.mpr (h.primitive _), nofun⟩
  · exact ⟨h.array.mpr hvalues, nofun⟩
  · exact ⟨h.array.mpr (h.tuple.mpr (by simpa using ⟨h.primitive _, hvalues⟩)), nofun⟩
  · exact ⟨ht, nofun⟩
  · split
    · refine ⟨h.primitive _, fun v hv => ?_⟩
      obtain rfl := Option.some.inj hv
      exact h.record (Bindings.forall_mem_update _ hf (h.field (ha _ (by simp))))
    · exact ⟨h.primitive _, nofun⟩
  · exact ⟨h.primitive _, nofun⟩
  · exact ⟨h.unknown, nofun⟩

omit ha in
theorem dataMember {s v : Scalar} {name : String} (hs : K (.literal s)) (hv : s.dataMember? name = some v) :
    K (.literal v) := by
  have hzero : K (.literal (.number (.float 0.0))) := h.literal (Scalar.same_self (by decide))
  unfold Scalar.dataMember? at hv
  split at hv
  · exact Option.some.inj hv ▸ h.literal (Scalar.same_self rfl)
  · next n hn =>
    obtain rfl := Option.some.inj hv
    cases s with
    | number m => exact Option.some.inj hn ▸ hs
    | boolean b => exact Option.some.inj hn ▸ h.integer _
    | string s => cases hn
  · exact Option.some.inj hv ▸ h.integer 0
  · exact Option.some.inj hv ▸ hzero
  · exact Option.some.inj hv ▸ hzero
  · exact Option.some.inj hv ▸ h.integer _
  · exact Option.some.inj hv ▸ h.integer 1
  · cases hv

omit ha in
theorem textResult (method : String) : K (textResult method) := by
  unfold Ty.textResult
  split
  · exact h.primitive _
  · split
    · exact h.array.mpr (h.primitive _)
    · split
      · exact h.primitive _
      · split
        · exact h.primitive _
        · exact h.unknown

omit ha in
theorem textFold {s : String} {method : String} {x : Scalar} (hx : textFold? s method = some x) : K (.literal x) := by
  unfold textFold? at hx
  split at hx
  case h_14 => cases hx
  all_goals
    obtain rfl := Option.some.inj hx
    exact h.literal (Scalar.same_self rfl)

omit ha in
theorem textMethod (t : Ty) (method : String) (args : List Ty) : Yields (textMethod t method args) K := by
  unfold Ty.textMethod
  split
  · next hs =>
    obtain ⟨_, _, hfold⟩ := Option.bind_eq_some_iff.mp hs
    exact yields_ok (h.textFold hfold)
  · split
    · exact yields_bind fun _ => yields_bind fun _ => yields_ok (h.textResult method)
    · exact yields_ok (h.textResult method)
  · exact yields_ok (h.textResult method)

theorem methodResult (method : String) (ht : K t) : Yields (t.methodResult method args) (MethodMeets K) := by
  unfold Ty.methodResult
  split
  · exact yields_ok ⟨h.unknown, nofun⟩
  · exact yields_ok ⟨h.never, nofun⟩
  · exact yields_ok (h.dictMethod ha method ht)
  · split
    · exact (h.textMethod _ method args).bind fun u hu => yields_ok ⟨hu, nofun⟩
    · exact h.listMethod ha method ht
    · refine yields_ok ⟨?_, nofun⟩
      dsimp only
      split
      · exact h.primitive _
      · exact h.unknown

end Closed

namespace Permissive

variable {K : Ty → Prop} (h : Permissive K) {t l r : Ty}

include h

theorem folded (op : BinaryOp) (l r : Ty) : Yields (folded op l r) fun o => ∀ t, o = some t → K t := by
  intro o ho t ht
  subst ht
  unfold Ty.folded at ho
  split at ho
  · split at ho
    · cases ho
    · split at ho
      · cases ho
      · obtain ⟨s, _, rfl⟩ := Option.map_eq_some_iff.mp (Except.ok.inj ho)
        exact h.scalar s
  · cases ho

theorem binarySingle (op : BinaryOp) (hl : K l) (hr : K r) : Yields (binarySingle op l r) K := by
  unfold Ty.binarySingle
  split
  · exact yields_ok h.unknown
  · split
    · exact yields_ok h.never
    · split
      · exact Closed.mismatch _ _ _
      · next result hk =>
        refine (h.folded op l r).bind fun o ho => yields_ok ?_
        cases o with
        | none => exact h.kindResult hl hr hk
        | some t => exact ho t rfl

theorem binary (op : BinaryOp) (hl : K l) (hr : K r) : Yields (binary op l r) K := by
  unfold Ty.binary
  split
  · exact yields_error
  · split
    · exact yields_ok h.unknown
    · split
      · exact yields_ok h.never
      · split
        · exact h.distribute hl hr fun a b => h.binarySingle op
        · exact h.binarySingle op hl hr

theorem unaryScalar (op : UnaryOp) (s : Scalar) : Yields (unaryScalar op s) K := by
  unfold Ty.unaryScalar
  split
  · exact yields_ok (h.scalar _)
  · exact yields_ok (h.scalar _)
  · exact yields_ok (h.scalar _)
  · exact yields_bind fun _ => yields_error

theorem unarySingle (op : UnaryOp) (t : Ty) : Yields (unarySingle op t) K := by
  unfold Ty.unarySingle
  split
  · exact yields_ok h.unknown
  · split
    · exact yields_ok h.never
    · split
      · exact yields_bind fun _ => yields_error
      · split
        · exact h.unaryScalar op _
        · exact yields_ok (h.primitive _)

theorem unary (op : UnaryOp) (t : Ty) : Yields (unary op t) K := by
  unfold Ty.unary
  split
  · refine yields_ok ?_
    cases t.truth?
    · exact h.primitive _
    · exact h.scalar _
  · exact (yields_mapM fun m _ => h.unarySingle _ m).bind fun ts hts => yields_ok (h.union hts)
  · exact h.unarySingle _ t

theorem foldedNumber {convert : Number → Option Number} (ht : Builtin.folded? convert t = some r) : K r := by
  unfold Builtin.folded? at ht
  split at ht
  · obtain ⟨n, _, rfl⟩ := Option.map_eq_some_iff.mp ht
    exact h.scalar _
  · cases ht

theorem toNumber (name : String) (args : List Ty) : Yields (Builtin.toNumber name args) K := by
  unfold Builtin.toNumber
  split
  · exact yields_ok (h.primitive _)
  · split
    · next hf => exact yields_ok (h.foldedNumber hf)
    · exact yields_bind fun _ => yields_ok (h.primitive _)

theorem magnitude (name : String) (args : List Ty) : Yields (Builtin.magnitude name args) K := by
  unfold Builtin.magnitude
  split
  · exact yields_error
  · next arg rest =>
    refine yields_bind fun _ => ?_
    split
    · exact yields_ok (h.primitive _)
    · refine yields_ok ?_
      cases hf : Builtin.folded? (if name == "abs" then Builtin.absolute? else Builtin.rounded?) arg with
      | none => exact h.primitive _
      | some t => exact h.foldedNumber hf

variable {args : List Ty} (ha : ∀ t ∈ args, K t)

include ha

theorem extreme (name : String) : Yields (Builtin.extreme name args) K := by
  unfold Builtin.extreme
  split
  · exact yields_ok h.never
  · exact h.itemsOf (ha _ (by simp))
  · split
    · exact yields_ok (h.union ha)
    · split
      · exact yields_ok (h.scalar _)
      · exact yields_bind fun _ => yields_error

theorem builtin (name : String) {fields : Bindings Ty} (hf : ∀ f ∈ fields, K f.2) :
    Yields (Builtin.result name args fields) K := by
  unfold Builtin.result
  split
  case h_38 => exact yields_ok h.unknown
  any_goals exact yields_ok (h.primitive _)
  any_goals exact h.toText _ _
  any_goals exact h.toNumber _ _
  any_goals exact h.magnitude _ _
  any_goals exact h.extreme ha _
  any_goals exact h.collected ha _
  case h_1 =>
    split
    · exact yields_error
    · exact h.length _
  case h_11 =>
    split
    · exact yields_ok (h.scalar _)
    · next arg _ =>
      refine yields_ok ?_
      cases arg.truth?
      · exact h.primitive _
      · exact h.scalar _
  case h_18 => exact yields_bind fun _ => yields_ok (h.array.mpr (h.primitive _))
  case h_25 =>
    unfold Builtin.summed
    split
    · exact yields_ok (h.primitive _)
    · exact yields_bind fun _ => yields_bind fun _ => yields_ok (h.primitive _)
  case h_26 =>
    have hpair {t : Ty} (ht : K t) : K (.array (.tuple [number, t])) :=
      h.array.mpr (h.tuple.mpr (by simpa using ⟨h.primitive _, ht⟩))
    split
    · exact yields_ok (hpair h.never)
    · exact (h.itemsOf (ha _ (by simp))).bind fun t ht => yields_ok (hpair ht)
  case h_27 =>
    refine (yields_mapM fun t ht => h.itemsOf (ha t ht)).bind fun ts hts => yields_ok ?_
    exact h.array.mpr (h.tuple.mpr hts)
  case h_28 =>
    split
    · exact yields_ok (h.record hf)
    · exact yields_ok (h.record (Bindings.forall_mem_update fields (h.field (ha _ (by simp))) hf))
    · exact yields_ok h.unknown
  case h_29 =>
    split
    · exact yields_ok (h.array.mpr h.unknown)
    · exact (h.called (ha _ (by simp))).bind fun t ht => yields_ok (h.array.mpr ht)
  case h_30 =>
    split
    · exact (h.itemsOf (ha _ (by simp))).bind fun t ht => yields_ok (h.array.mpr ht)
    · exact yields_ok (h.array.mpr h.unknown)
  case h_31 =>
    have hn : K number := h.primitive _
    exact yields_bind fun _ => yields_ok (h.tuple.mpr (by simpa using hn))
  case h_32 =>
    split
    · exact h.binary _ (ha _ (by simp)) (ha _ (by simp))
    · exact yields_ok (h.primitive _)
  case h_37 =>
    split
    · exact yields_ok h.unknown
    · exact h.itemsOf (ha _ (by simp))

end Permissive

namespace Closed

variable {K : Ty → Prop} (h : Closed K)

include h

theorem truthPart {t : Ty} (ht : K t) (truthy : Bool) : Yields (t.truthPart truthy) K := by
  refine (h.sortedMembers ht).bind fun ms hms => yields_ok (h.union fun u hu => ?_)
  obtain ⟨m, hm, hmu⟩ := List.mem_filterMap.mp hu
  generalize (if truthy then m.mayBeTruthy else m.mayBeFalsy) = may at hmu
  split at hmu
  · obtain rfl := Option.some.inj hmu
    exact h.truth _
  · split at hmu
    · exact Option.some.inj hmu ▸ hms m hm
    · cases hmu

theorem nonePart (t : Ty) : Yields t.nonePart K := by
  unfold Ty.nonePart
  split
  · exact yields_ok (h.primitive _)
  · refine yields_bind fun _ => yields_ok ?_
    split
    · exact h.primitive _
    · exact h.never

theorem withoutNone {t : Ty} (ht : K t) : Yields t.withoutNone K :=
  (h.sortedMembers ht).bind fun _ hms => yields_ok (h.union fun m hm => hms m (List.mem_filter.mp hm).1)

theorem instancesOf (classes : List KnownClass) : K (instancesOf classes) := by
  unfold Ty.instancesOf
  split
  · next ts hts =>
    have hmap := mapM_eq_map (g := fun c => (KnownClass.type? c).getD .unknown) (fun a b hab => by simp [hab]) hts
    rw [hmap]
    refine h.union (List.forall_mem_map.mpr fun c _ => ?_)
    cases c with
    | int => exact h.primitive _
    | float => exact h.primitive _
    | complex => exact h.primitive _
    | bool => exact h.primitive _
    | str => exact h.primitive _
    | _ => exact h.unknown
  · exact h.unknown

theorem instancePart {t : Ty} (ht : K t) (classes : List KnownClass) (matching : Bool) :
    Yields (t.instancePart classes matching) K := by
  refine (h.sortedMembers ht).bind fun ms hms => yields_ok (h.union fun u hu => ?_)
  obtain ⟨m, hm, hmu⟩ := List.mem_filterMap.mp hu
  split at hmu
  · obtain rfl := Option.some.inj hmu
    split
    · exact h.instancesOf classes
    · exact hms m hm
  · split at hmu
    · exact Option.some.inj hmu ▸ hms m hm
    · cases hmu

end Closed

end Ty

end Casewise
