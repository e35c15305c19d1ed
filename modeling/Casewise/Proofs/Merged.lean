import Casewise.Proofs.NormalForm
import Casewise.Ty.Merge

namespace Casewise

section

variable {α β : Type}

theorem mapM_isSome {f : α → Option β} {as : List α} :
    (as.mapM f).isSome = true ↔ ∀ a ∈ as, (f a).isSome = true := by
  induction as with
  | nil => simp
  | cons a as ih =>
    rw [List.forall_mem_cons, ← ih, List.mapM_cons]
    cases f a <;> cases as.mapM f <;> simp

theorem mapM_eq_map {f : α → Option β} {g : α → β} (h : ∀ a b, f a = some b → b = g a) {as : List α} {bs : List β}
    (hm : as.mapM f = some bs) : bs = as.map g := by
  induction as generalizing bs with
  | nil => simpa using hm.symm
  | cons a as ih =>
    rw [List.mapM_cons] at hm
    cases ha : f a with
    | none => simp [ha] at hm
    | some b =>
      cases hr : as.mapM f with
      | none => simp [ha, hr] at hm
      | some cs =>
        obtain rfl : b :: cs = bs := by simpa [ha, hr] using hm
        rw [List.map_cons, ← h a b ha, ← ih hr]

theorem mapM_eq_some_iff {f : α → Option β} {as : List α} {bs : List β} : as.mapM f = some bs ↔ as.map f = bs.map some := by
  induction as generalizing bs with
  | nil => cases bs <;> simp
  | cons a as ih =>
    rw [List.mapM_cons]
    cases bs with
    | nil => cases f a <;> cases as.mapM f <;> simp
    | cons b bs =>
      rw [List.map_cons, List.map_cons, List.cons.injEq, ← ih]
      cases f a <;> cases as.mapM f <;> simp

theorem mapM_of_perm {f : α → Option β} {as as' : List α} {bs : List β} (h : (as.map f).Perm (as'.map f)) (hb : as.mapM f = some bs) :
    ∃ bs', as'.mapM f = some bs' ∧ bs.Perm bs' := by
  have hsome : (as'.mapM f).isSome = true := by
    rw [mapM_isSome, ← List.forall_mem_map (P := fun x : Option β => x.isSome = true)]
    intro x hx
    rw [← h.mem_iff, mapM_eq_some_iff.mp hb] at hx
    obtain ⟨b, _, rfl⟩ := List.mem_map.mp hx
    rfl
  obtain ⟨bs', hb'⟩ := Option.isSome_iff_exists.mp hsome
  rw [mapM_eq_some_iff.mp hb, mapM_eq_some_iff.mp hb'] at h
  exact ⟨bs', hb', by simpa using h.filterMap id⟩

theorem map_mapM_congr {γ : Type} {f g : α → Option β} {k : β → γ} {as : List α}
    (h : ∀ a ∈ as, (f a).map k = (g a).map k) : (as.mapM f).map (List.map k) = (as.mapM g).map (List.map k) := by
  induction as with
  | nil => rfl
  | cons a as ih =>
    rw [List.forall_mem_cons] at h
    have hhead := h.1
    have hrest := ih h.2
    rw [List.mapM_cons, List.mapM_cons]
    cases hf : f a <;> cases hg : g a <;> cases hm : as.mapM f <;> cases hn : as.mapM g <;> simp_all

end

namespace Ty

def byName (t : Ty) : List Ty := (sortedMembers? t).getD t.members

def mergedField (merge : List Ty → Ty) (objects : List (List (String × Ty))) (key : String) : Ty :=
  let present := objects.filterMap (Bindings.get? key)
  if present.length < objects.length then union [merge present, undefined] else merge present

def mergedObject (merge : List Ty → Ty) (objects : List (List (String × Ty))) : Ty :=
  .object ((fieldKeys objects).map fun key => (key, mergedField merge objects key))

def mergedTuple (merge : List Ty → Ty) (tuples : List (List Ty)) (length : Nat) : Ty :=
  .tuple ((columns length (tuples.filter (·.length == length))).map merge)

def mergedContainers (merge : List Ty → Ty) (flat : List Ty) : List Ty :=
  let objects := flat.filterMap fields?
  let arrays := flat.filterMap element?
  let tuples := flat.filterMap elements?
  (if objects.isEmpty then [] else [mergedObject merge objects]) ++
    (if arrays.isEmpty then [] else [.array (merge arrays)]) ++
    (distinctBy (· == ·) (tuples.map List.length)).map (mergedTuple merge tuples)

def mergedTo : Nat → List Ty → Ty
  | 0, ts => union (ts.flatMap byName)
  | n + 1, ts =>
    union ((ts.flatMap byName).filter (fun t => !t.isContainer) ++
      mergedContainers (mergedTo n) (ts.flatMap byName))

theorem alternatives?_eq_some {ts flat : List Ty} (h : alternatives? ts = some flat) : flat = ts.flatMap byName := by
  obtain ⟨ls, hm, rfl⟩ := Option.map_eq_some_iff.mp h
  have hs : ∀ t l, sortedMembers? t = some l → l = byName t := by
    intro t l hl
    simp [byName, hl]
  rw [mapM_eq_map hs hm, List.flatMap_def]

theorem mergeContainers_eq (m : List Ty → Option Ty) (flat : List Ty) : mergeContainers m flat =
    (if (flat.filterMap fields?).isEmpty then some []
      else (mergeObjects m (flat.filterMap fields?)).map ([·])).bind fun os =>
    (if (flat.filterMap element?).isEmpty then some [] else (m (flat.filterMap element?)).map ([.array ·])).bind fun as =>
    ((distinctBy (· == ·) ((flat.filterMap elements?).map List.length)).mapM
      (mergeTuples m (flat.filterMap elements?))).map fun ts => os ++ as ++ ts := by
  unfold mergeContainers
  by_cases ho : (flat.filterMap fields?).isEmpty = true <;> by_cases ha : (flat.filterMap element?).isEmpty = true <;>
    simp only [ho, ha, if_true, Option.map_eq_bind] <;> rfl

section

variable {m : List Ty → Option Ty} {g : List Ty → Ty} (h : ∀ ts t, m ts = some t → t = g ts)

include h

theorem mergeObjects_eq_some {objects : List (List (String × Ty))} {t : Ty}
    (hm : mergeObjects m objects = some t) : t = mergedObject g objects := by
  obtain ⟨fs, hf, rfl⟩ := Option.map_eq_some_iff.mp hm
  rw [mapM_eq_map (g := fun key => (key, mergedField g objects key)) ?_ hf]
  · rfl
  · intro key f hk
    simp only [mergeField, Option.bind_eq_bind, Option.bind_eq_some_iff] at hk
    obtain ⟨t, ht, hk⟩ := hk
    obtain rfl := h _ _ ht
    exact (Option.some.inj hk).symm

theorem mergeTuples_eq_some {tuples : List (List Ty)} {length : Nat} {t : Ty}
    (hm : mergeTuples m tuples length = some t) : t = mergedTuple g tuples length := by
  obtain ⟨ts, ht, rfl⟩ := Option.map_eq_some_iff.mp hm
  rw [mapM_eq_map h ht]
  rfl

theorem mergeContainers_eq_some {flat rs : List Ty} (hm : mergeContainers m flat = some rs) :
    rs = mergedContainers g flat := by
  simp only [mergeContainers_eq, Option.bind_eq_some_iff, Option.map_eq_some_iff] at hm
  obtain ⟨os, ho, as, ha, ts, ht, rfl⟩ := hm
  have hos : os = if (flat.filterMap fields?).isEmpty then [] else [mergedObject g (flat.filterMap fields?)] := by
    split at ho
    · next he => rw [if_pos he, Option.some.inj ho]
    · next he =>
      obtain ⟨o, hm, rfl⟩ := Option.map_eq_some_iff.mp ho
      rw [if_neg he, mergeObjects_eq_some h hm]
  have has : as = if (flat.filterMap element?).isEmpty then [] else [.array (g (flat.filterMap element?))] := by
    split at ha
    · next he => rw [if_pos he, Option.some.inj ha]
    · next he =>
      obtain ⟨a, hm, rfl⟩ := Option.map_eq_some_iff.mp ha
      rw [if_neg he, h _ _ hm]
  have hts := mapM_eq_map (fun _ _ => mergeTuples_eq_some h) ht
  rw [hos, has, hts]
  rfl

end

theorem mergeTo_eq_some {n : Nat} {ts : List Ty} {t : Ty} (h : mergeTo n ts = some t) : t = mergedTo n ts := by
  induction n generalizing ts t with
  | zero =>
    obtain ⟨flat, hf, rfl⟩ := Option.map_eq_some_iff.mp h
    rw [alternatives?_eq_some hf, mergedTo]
  | succ n ih =>
    simp only [mergeTo, Option.bind_eq_bind, Option.bind_eq_some_iff] at h
    obtain ⟨flat, hf, rs, hr, ht⟩ := h
    obtain rfl := alternatives?_eq_some hf
    rw [← Option.some.inj ht, mergeContainers_eq_some (fun _ _ => ih) hr, mergedTo]

theorem names?_length {ts : List Ty} {ns : List String} (h : names? ts = some ns) : ns.length = ts.length := by
  induction ts generalizing ns with
  | nil => simp_all [names?]
  | cons t ts ih =>
    simp only [names?, Option.bind_eq_bind, Option.bind_eq_some_iff] at h
    obtain ⟨n, _, ns', hns, hn⟩ := h
    rw [← Option.some.inj hn, List.length_cons, List.length_cons, ih hns]

theorem byName_perm (t : Ty) : (byName t).Perm t.members := by
  cases t with
  | oneOf ms =>
    simp only [byName, sortedMembers?, members]
    cases hn : names? ms with
    | none => exact List.Perm.refl _
    | some ns =>
      have hz : (ms.zip ns).map (·.1) = ms := List.map_fst_zip (names?_length hn).ge
      have hp := (sortBy_perm (fun a b : Ty × String => textLe a.2 b.2) (ms.zip ns)).map (·.1)
      rw [hz] at hp
      exact hp
  | _ => exact List.Perm.refl _

theorem mem_byName {t m : Ty} : m ∈ byName t ↔ m ∈ t.members := (byName_perm t).mem_iff

theorem every_flat {d : Bool} {p : Ty → Bool} {ts : List Ty} (h : ∀ t ∈ ts, every d p t = true) :
    ∀ m ∈ ts.flatMap byName, every d p m = true := by
  intro m hm
  obtain ⟨t, ht, hmt⟩ := List.mem_flatMap.mp hm
  exact every_members (h t ht) (mem_byName.mp hmt)

theorem mem_fields {flat : List Ty} {fs : List (String × Ty)} : fs ∈ flat.filterMap fields? ↔ .object fs ∈ flat := by
  simp only [List.mem_filterMap]
  constructor
  · rintro ⟨t, ht, hf⟩
    cases t <;> simp_all [fields?]
  · exact fun h => ⟨_, h, rfl⟩

theorem mem_element {flat : List Ty} {e : Ty} : e ∈ flat.filterMap element? ↔ .array e ∈ flat := by
  simp only [List.mem_filterMap]
  constructor
  · rintro ⟨t, ht, hf⟩
    cases t <;> simp_all [element?]
  · exact fun h => ⟨_, h, rfl⟩

theorem mem_elements {flat : List Ty} {es : List Ty} : es ∈ flat.filterMap elements? ↔ .tuple es ∈ flat := by
  simp only [List.mem_filterMap]
  constructor
  · rintro ⟨t, ht, hf⟩
    cases t <;> simp_all [elements?]
  · exact fun h => ⟨_, h, rfl⟩

def nested (flat : List Ty) : List (List Ty) :=
  (fieldKeys (flat.filterMap fields?)).map (fun key => (flat.filterMap fields?).filterMap (Bindings.get? key)) ++
    (if (flat.filterMap element?).isEmpty then [] else [flat.filterMap element?]) ++
    (distinctBy (· == ·) ((flat.filterMap elements?).map List.length)).flatMap fun length =>
      columns length ((flat.filterMap elements?).filter (·.length == length))

theorem mem_fieldKeys {objects : List (List (String × Ty))} {key : String} :
    key ∈ fieldKeys objects ↔ ∃ fs ∈ objects, key ∈ Bindings.names fs := by
  rw [fieldKeys, mem_sortTexts_distinct, List.mem_flatMap]

theorem increasing_fieldKeys (objects : List (List (String × Ty))) : (fieldKeys objects).Pairwise (· < ·) :=
  increasing_sortTexts_distinct _

theorem mem_present {objects : List (List (String × Ty))} {key : String} {t : Ty} :
    t ∈ objects.filterMap (Bindings.get? key) ↔ ∃ fs ∈ objects, Bindings.get? key fs = some t :=
  List.mem_filterMap

theorem mem_columns {length : Nat} {tuples : List (List Ty)} {column : List Ty} :
    column ∈ columns length tuples ↔ ∃ i < length, column = tuples.filterMap (·[i]?) := by
  simp only [columns, List.mem_map, List.mem_range, eq_comm]

theorem mem_lengths {tuples : List (List Ty)} {length : Nat} :
    length ∈ distinctBy (· == ·) (tuples.map List.length) ↔ ∃ es ∈ tuples, es.length = length := by
  rw [← List.mem_map]
  constructor
  · exact mem_of_mem_distinctBy
  · intro h
    have trans {a b c : Nat} (hab : (a == b) = true) (hbc : (b == c) = true) : (a == c) = true := by simp_all
    obtain ⟨k, hk, he⟩ := exists_mem_distinctBy (fun a b : Nat => a == b) trans h (beq_self_eq_true length)
    exact eq_of_beq he ▸ hk

theorem child_of_mem_nested {flat L : List Ty} {t : Ty} (hL : L ∈ nested flat) (ht : t ∈ L) :
    ∃ c ∈ flat, c.isContainer = true ∧ t ∈ c.children := by
  simp only [nested, List.mem_append, List.mem_map, List.mem_flatMap] at hL
  rcases hL with (⟨key, _, rfl⟩ | hL) | ⟨length, _, hL⟩
  · obtain ⟨fs, hfs, hk⟩ := mem_present.mp ht
    exact ⟨_, mem_fields.mp hfs, rfl, List.mem_map.mpr ⟨_, Bindings.mem_of_get? hk, rfl⟩⟩
  · split at hL
    · simp at hL
    · obtain rfl := List.mem_singleton.mp hL
      exact ⟨_, mem_element.mp ht, rfl, by simp [children]⟩
  · obtain ⟨i, _, rfl⟩ := mem_columns.mp hL
    obtain ⟨es, hes, hi⟩ := List.mem_filterMap.mp ht
    exact ⟨_, mem_elements.mp (List.mem_filter.mp hes).1, rfl, List.mem_of_getElem? hi⟩

theorem mem_nested_of_child {flat : List Ty} {c t : Ty} (hw : c.WellFormed) (hc : c ∈ flat)
    (hcc : c.isContainer = true) (ht : t ∈ c.children) : ∃ L ∈ nested flat, t ∈ L := by
  simp only [nested, List.mem_append, List.mem_map, List.mem_flatMap]
  cases c with
  | object fs =>
    obtain ⟨f, hf, rfl⟩ := List.mem_map.mp ht
    have hk : Bindings.get? f.1 fs = some f.2 :=
      Bindings.get?_of_mem ((wellFormed_object.mp hw).1.imp ne_of_lt) hf
    refine ⟨_, .inl (.inl ⟨f.1, ?_, rfl⟩), mem_present.mpr ⟨fs, mem_fields.mpr hc, hk⟩⟩
    exact mem_fieldKeys.mpr ⟨fs, mem_fields.mpr hc, List.mem_map_of_mem hf⟩
  | array e =>
    obtain rfl := List.mem_singleton.mp ht
    have he := mem_element.mpr hc
    refine ⟨_, .inl (.inr ?_), he⟩
    rw [if_neg (by simpa using List.ne_nil_of_mem he)]
    simp
  | tuple es =>
    obtain ⟨i, hi, rfl⟩ := List.getElem_of_mem ht
    have hes := mem_elements.mpr hc
    refine ⟨_, .inr ⟨es.length, mem_lengths.mpr ⟨es, hes, rfl⟩, mem_columns.mpr ⟨i, hi, rfl⟩⟩, ?_⟩
    exact List.mem_filterMap.mpr ⟨es, List.mem_filter.mpr ⟨hes, by simp⟩, List.getElem?_eq_getElem hi⟩
  | _ => simp [isContainer] at hcc

theorem mem_mergedContainers {g : List Ty → Ty} {flat : List Ty} {c : Ty} : c ∈ mergedContainers g flat ↔
    (flat.filterMap fields? ≠ [] ∧ c = mergedObject g (flat.filterMap fields?)) ∨
    (flat.filterMap element? ≠ [] ∧ c = .array (g (flat.filterMap element?))) ∨
    ∃ es, .tuple es ∈ flat ∧ c = mergedTuple g (flat.filterMap elements?) es.length := by
  have hif {α : Type} {as : List α} {t : Ty} : c ∈ (if as.isEmpty then [] else [t]) ↔ as ≠ [] ∧ c = t := by
    cases as <;> simp
  simp only [mergedContainers, List.mem_append, hif, or_assoc, List.mem_map, mem_lengths]
  refine or_congr_right (or_congr_right ⟨?_, ?_⟩)
  · rintro ⟨_, ⟨es, hes, rfl⟩, rfl⟩
    exact ⟨es, mem_elements.mp hes, rfl⟩
  · rintro ⟨es, hes, rfl⟩
    exact ⟨_, ⟨es, mem_elements.mpr hes, rfl⟩, rfl⟩

theorem isContainer_mergedContainers {g : List Ty → Ty} {flat : List Ty} {c : Ty}
    (h : c ∈ mergedContainers g flat) : c.isContainer = true := by
  rcases mem_mergedContainers.mp h with ⟨_, rfl⟩ | ⟨_, rfl⟩ | ⟨_, _, rfl⟩ <;> rfl

theorem mergedField_cases (g : List Ty → Ty) (objects : List (List (String × Ty))) (key : String) :
    mergedField g objects key = g (objects.filterMap (Bindings.get? key)) ∨
      mergedField g objects key = union [g (objects.filterMap (Bindings.get? key)), undefined] := by
  simp only [mergedField]
  split
  · exact .inr rfl
  · exact .inl rfl

theorem mem_nested_present {flat : List Ty} {key : String} (h : key ∈ fieldKeys (flat.filterMap fields?)) :
    (flat.filterMap fields?).filterMap (Bindings.get? key) ∈ nested flat := by
  simp only [nested, List.mem_append, List.mem_map]
  exact .inl (.inl ⟨key, h, rfl⟩)

theorem mem_nested_elements {flat : List Ty} (h : flat.filterMap element? ≠ []) :
    flat.filterMap element? ∈ nested flat := by
  simp only [nested, List.mem_append]
  refine .inl (.inr ?_)
  rw [if_neg (by simpa using h)]
  simp

theorem mem_nested_columns {flat es : List Ty} (h : .tuple es ∈ flat) {column : List Ty}
    (hc : column ∈ columns es.length ((flat.filterMap elements?).filter (·.length == es.length))) :
    column ∈ nested flat := by
  simp only [nested, List.mem_append, List.mem_flatMap]
  exact .inr ⟨_, mem_lengths.mpr ⟨es, mem_elements.mpr h, rfl⟩, hc⟩

theorem isFunction_container {c : Ty} (h : c.isContainer = true) : c.isFunction = false := by
  cases c <;> simp_all [isContainer, isFunction]

theorem child_mergedContainers {g : List Ty → Ty} {flat : List Ty} {c t : Ty} (hc : c ∈ mergedContainers g flat)
    (ht : t ∈ c.children) : ∃ L ∈ nested flat, t = g L ∨ t = union [g L, undefined] := by
  rcases mem_mergedContainers.mp hc with ⟨_, rfl⟩ | ⟨ha, rfl⟩ | ⟨es, hes, rfl⟩
  · obtain ⟨f, hf, rfl⟩ := List.mem_map.mp ht
    obtain ⟨key, hk, rfl⟩ := List.mem_map.mp hf
    exact ⟨_, mem_nested_present hk, mergedField_cases g (flat.filterMap fields?) key⟩
  · exact ⟨_, mem_nested_elements ha, .inl (List.mem_singleton.mp ht)⟩
  · obtain ⟨column, hcol, rfl⟩ := List.mem_map.mp ht
    exact ⟨_, mem_nested_columns hes hcol, .inl rfl⟩

theorem wellFormed_mergedContainers {g : List Ty → Ty} {flat : List Ty}
    (hg : ∀ L ∈ nested flat, (g L).WellFormed) : ∀ c ∈ mergedContainers g flat, c.WellFormed := by
  intro c hc
  refine every_iff.mpr ⟨?_, fun t ht => ?_⟩
  · rcases mem_mergedContainers.mp hc with ⟨_, rfl⟩ | ⟨_, rfl⟩ | ⟨_, _, rfl⟩
    · simpa [mergedObject, isNormal, Bindings.names, Function.comp_def] using increasing_fieldKeys _
    · rfl
    · rfl
  · obtain ⟨L, hL, rfl | rfl⟩ := child_mergedContainers hc ht
    · exact hg L hL
    · exact wellFormed_union (by simpa [undefined] using hg L hL)

theorem every_nested {d : Bool} {p : Ty → Bool} {flat L : List Ty} (h : ∀ c ∈ flat, every d p c = true)
    (hL : L ∈ nested flat) : ∀ t ∈ L, every d p t = true := by
  intro t ht
  obtain ⟨c, hc, hcc, htc⟩ := child_of_mem_nested hL ht
  exact every_inside (h c hc) (isFunction_container hcc) htc

theorem wellFormed_mergedTo {n : Nat} {ts : List Ty} (h : ∀ t ∈ ts, t.WellFormed) : (mergedTo n ts).WellFormed := by
  induction n generalizing ts with
  | zero => exact wellFormed_union (every_flat h)
  | succ n ih =>
    refine wellFormed_union (List.forall_mem_append.mpr ⟨fun t ht => ?_, ?_⟩)
    · exact every_flat h t (List.mem_filter.mp ht).1
    · exact wellFormed_mergedContainers fun L hL => ih (every_nested (every_flat h) hL)

section

variable {d : Bool} {p : Ty → Bool} (hp : OnLeaves p)

include hp

theorem every_mergedContainers {g : List Ty → Ty} {flat : List Ty} (hw : ∀ L ∈ nested flat, (g L).WellFormed)
    (hg : ∀ L ∈ nested flat, every d p (g L) = true) : ∀ c ∈ mergedContainers g flat, every d p c = true := by
  intro c hc
  have hcc := isContainer_mergedContainers hc
  refine every_iff.mpr ⟨(hp c).resolve_right ?_, fun t ht => ?_⟩
  · rintro (⟨s, rfl⟩ | rfl) <;> simp [isContainer] at hcc
  · rw [within_eq (isFunction_container hcc)] at ht
    obtain ⟨L, hL, rfl | rfl⟩ := child_mergedContainers hc ht
    · exact hg L hL
    · have hu : every d p undefined = true := (hp undefined).resolve_right (by simp [undefined])
      exact every_union hp (by simpa [undefined] using hw L hL) (by simp [hg L hL, hu])

theorem every_mergedTo {n : Nat} {ts : List Ty} (wf : ∀ t ∈ ts, t.WellFormed) (h : ∀ t ∈ ts, every d p t = true) :
    every d p (mergedTo n ts) = true := by
  induction n generalizing ts with
  | zero => exact every_union hp (every_flat wf) (every_flat h)
  | succ n ih =>
    have hn (L : List Ty) (hL : L ∈ nested (ts.flatMap byName)) : ∀ t ∈ L, t.WellFormed :=
      every_nested (every_flat wf) hL
    have hw (L : List Ty) (hL : L ∈ nested (ts.flatMap byName)) := wellFormed_mergedTo (n := n) (hn L hL)
    have hc := every_mergedContainers hp hw fun L hL => ih (hn L hL) (every_nested (every_flat h) hL)
    refine every_union hp ?_ ?_
    · refine List.forall_mem_append.mpr ⟨fun t ht => ?_, wellFormed_mergedContainers hw⟩
      exact every_flat wf t (List.mem_filter.mp ht).1
    · exact List.forall_mem_append.mpr ⟨fun t ht => every_flat h t (List.mem_filter.mp ht).1, hc⟩

end

theorem depthAll_le {ts : List Ty} {n : Nat} : depthAll ts ≤ n ↔ ∀ t ∈ ts, depth t ≤ n := by
  induction ts with
  | nil => simp [depthAll]
  | cons t ts ih => simp [depthAll, ih]

theorem depthFields_le {fs : List (String × Ty)} {n : Nat} : depthFields fs ≤ n ↔ ∀ f ∈ fs, depth f.2 ≤ n := by
  induction fs with
  | nil => simp [depthFields]
  | cons f fs ih => simp [depthFields, ih]

theorem depth_members {t m : Ty} (h : m ∈ t.members) : depth m ≤ depth t := by
  cases t with
  | oneOf ms => exact depthAll_le.mp le_rfl m h
  | _ => exact List.mem_singleton.mp h ▸ le_rfl

theorem depth_child {c t : Ty} (hc : c.isContainer = true) (ht : t ∈ c.children) : depth t < depth c := by
  cases c with
  | object fs =>
    obtain ⟨f, hf, rfl⟩ := List.mem_map.mp ht
    exact Nat.lt_succ_of_le (depthFields_le.mp le_rfl f hf)
  | array e =>
    obtain rfl := List.mem_singleton.mp ht
    exact Nat.lt_succ_self _
  | tuple es => exact Nat.lt_succ_of_le (depthAll_le.mp le_rfl t ht)
  | _ => simp [isContainer] at hc

theorem depth_flat {ts : List Ty} {n : Nat} (h : ∀ t ∈ ts, depth t ≤ n) : ∀ m ∈ ts.flatMap byName, depth m ≤ n := by
  intro m hm
  obtain ⟨t, ht, hmt⟩ := List.mem_flatMap.mp hm
  exact (depth_members (mem_byName.mp hmt)).trans (h t ht)

theorem depth_nested {flat L : List Ty} {n : Nat} (h : ∀ c ∈ flat, depth c ≤ n + 1) (hL : L ∈ nested flat) :
    ∀ t ∈ L, depth t ≤ n := by
  intro t ht
  obtain ⟨c, hc, hcc, htc⟩ := child_of_mem_nested hL ht
  have := depth_child hcc htc
  have := h c hc
  omega

theorem mergedContainers_congr {g g' : List Ty → Ty} {flat : List Ty} (h : ∀ L ∈ nested flat, g L = g' L) :
    mergedContainers g flat = mergedContainers g' flat := by
  have hobject : mergedObject g (flat.filterMap fields?) = mergedObject g' (flat.filterMap fields?) := by
    refine congrArg Ty.object (List.map_congr_left fun key hk => ?_)
    rw [mergedField, mergedField, h _ (mem_nested_present hk)]
  have harray (ha : ¬ (flat.filterMap element?).isEmpty = true) :
      g (flat.filterMap element?) = g' (flat.filterMap element?) :=
    h _ (mem_nested_elements (by simpa using ha))
  have htuple (length : Nat) (hl : length ∈ distinctBy (· == ·) ((flat.filterMap elements?).map List.length)) :
      mergedTuple g (flat.filterMap elements?) length = mergedTuple g' (flat.filterMap elements?) length := by
    obtain ⟨es, hes, rfl⟩ := mem_lengths.mp hl
    refine congrArg Ty.tuple (List.map_congr_left fun column hc => ?_)
    exact h _ (mem_nested_columns (mem_elements.mp hes) hc)
  simp only [mergedContainers, hobject, List.map_congr_left htuple]
  by_cases ha : (flat.filterMap element?).isEmpty = true
  · rw [if_pos ha, if_pos ha]
  · rw [if_neg ha, if_neg ha, harray ha]

theorem mergedContainers_of_plain {g : List Ty → Ty} {flat : List Ty} (h : ∀ m ∈ flat, m.isContainer = false) :
    mergedContainers g flat = [] := by
  refine List.eq_nil_iff_forall_not_mem.mpr fun c hc => ?_
  rcases mem_mergedContainers.mp hc with ⟨ho, _⟩ | ⟨ha, _⟩ | ⟨es, hes, _⟩
  · obtain ⟨fs, hfs⟩ := List.exists_mem_of_ne_nil _ ho
    simpa [isContainer] using h _ (mem_fields.mp hfs)
  · obtain ⟨e, he⟩ := List.exists_mem_of_ne_nil _ ha
    simpa [isContainer] using h _ (mem_element.mp he)
  · simpa [isContainer] using h _ hes

theorem mergedTo_succ {n : Nat} {ts : List Ty} (hd : ∀ t ∈ ts, depth t ≤ n) : mergedTo (n + 1) ts = mergedTo n ts := by
  induction n generalizing ts with
  | zero =>
    have hc : ∀ m ∈ ts.flatMap byName, m.isContainer = false := by
      intro m hm
      have := depth_flat hd m hm
      cases m <;> simp_all [depth, isContainer]
    rw [mergedTo, mergedTo, mergedContainers_of_plain hc, List.append_nil, List.filter_eq_self.mpr]
    intro m hm
    rw [hc m hm, Bool.not_false]
  | succ n ih =>
    rw [mergedTo, mergedTo, mergedContainers_congr]
    exact fun L hL => ih (depth_nested (depth_flat hd) hL)

def merged (ts : List Ty) : Ty := mergedTo (depthAll ts) ts

theorem mergedTo_eq_merged {n : Nat} {ts : List Ty} (hd : ∀ t ∈ ts, depth t ≤ n) : mergedTo n ts = merged ts := by
  induction n, depthAll_le.mpr hd using Nat.le_induction with
  | base => rfl
  | succ n hn ih => rw [mergedTo_succ (depthAll_le.mp hn), ih (depthAll_le.mp hn)]

theorem merged_eq (ts : List Ty) : merged ts =
    union ((ts.flatMap byName).filter (fun t => !t.isContainer) ++ mergedContainers merged (ts.flatMap byName)) := by
  have hd := depthAll_le.mp (le_refl (depthAll ts))
  rw [merged, ← mergedTo_succ hd, mergedTo, mergedContainers_congr]
  intro L hL
  exact mergedTo_eq_merged (depth_nested (fun c hc => (depth_flat hd c hc).trans (Nat.le_succ _)) hL)

theorem wellFormed_merged {ts : List Ty} (h : ∀ t ∈ ts, t.WellFormed) : (merged ts).WellFormed :=
  wellFormed_mergedTo h

def isSortable : Ty → Bool
  | .oneOf ms => (names? ms).isSome
  | _ => true

def Mergeable (t : Ty) : Prop := t.every false isSortable = true

instance (t : Ty) : Decidable t.Mergeable := inferInstanceAs (Decidable (_ = true))

theorem mergeable_alternative {c : Ty} (h : c.isOneOf = false) :
    c.Mergeable ↔ (c.isContainer = true → ∀ t ∈ c.children, t.Mergeable) := by
  rw [Mergeable, every_iff]
  cases c with
  | oneOf ms => simp [isOneOf] at h
  | _ => simp [isSortable, within, isFunction, isContainer, children, Mergeable]

theorem mergeable_iff {t : Ty} (ht : t.WellFormed) : t.Mergeable ↔ (sortedMembers? t).isSome = true ∧
    ∀ m ∈ t.members, m.isContainer = true → ∀ c ∈ m.children, c.Mergeable := by
  cases t with
  | oneOf ms =>
    have hs : (sortedMembers? (.oneOf ms)).isSome = (names? ms).isSome := by
      simp only [sortedMembers?]
      cases names? ms <;> rfl
    rw [Mergeable, every_iff, hs]
    refine and_congr_right fun _ => forall₂_congr fun m hm => ?_
    exact mergeable_alternative (isOneOf_members ht hm)
  | _ =>
    rw [mergeable_alternative rfl]
    simp [sortedMembers?, members]

theorem mergeObjects_isSome {m : List Ty → Option Ty} {objects : List (List (String × Ty))} :
    (mergeObjects m objects).isSome = true ↔
      ∀ key ∈ fieldKeys objects, (m (objects.filterMap (Bindings.get? key))).isSome = true := by
  rw [mergeObjects, Option.isSome_map, mapM_isSome]
  refine forall₂_congr fun key _ => ?_
  simp only [mergeField]
  cases m (objects.filterMap (Bindings.get? key)) <;> simp

theorem mergeContainers_isSome {m : List Ty → Option Ty} {flat : List Ty} :
    (mergeContainers m flat).isSome = true ↔ ∀ L ∈ nested flat, (m L).isSome = true := by
  have hbind {X Y Z : Option (List Ty)} : (X.bind fun xs => Y.bind fun ys => Z.map fun zs => xs ++ ys ++ zs).isSome =
      true ↔ (X.isSome = true ∧ Y.isSome = true) ∧ Z.isSome = true := by
    cases X <;> cases Y <;> cases Z <;> simp
  rw [mergeContainers_eq, hbind, nested, List.forall_mem_append, List.forall_mem_append, List.forall_mem_map]
  refine and_congr (and_congr ?_ ?_) ?_
  · split
    · next h =>
      rw [List.isEmpty_iff.mp h]
      exact iff_of_true rfl fun key hk => by simp [mem_fieldKeys] at hk
    · rw [Option.isSome_map, mergeObjects_isSome]
  · split <;> simp
  · simp only [mapM_isSome, mergeTuples, Option.isSome_map, List.mem_flatMap, forall_exists_index, and_imp]
    exact ⟨fun h L k hk hL => h k hk L hL, fun h k hk L hL => h L k hk hL⟩

theorem alternatives?_isSome {ts : List Ty} :
    (alternatives? ts).isSome = true ↔ ∀ t ∈ ts, (sortedMembers? t).isSome = true := by
  rw [alternatives?, Option.isSome_map, mapM_isSome]

theorem forall_mergeable_iff {ts : List Ty} (wf : ∀ t ∈ ts, t.WellFormed) :
    (∀ t ∈ ts, t.Mergeable) ↔ (alternatives? ts).isSome = true ∧
      ∀ L ∈ nested (ts.flatMap byName), ∀ t ∈ L, t.Mergeable := by
  rw [alternatives?_isSome]
  constructor
  · intro h
    refine ⟨fun t ht => ((mergeable_iff (wf t ht)).mp (h t ht)).1, fun L hL c hc => ?_⟩
    obtain ⟨m, hm, hmc, hcm⟩ := child_of_mem_nested hL hc
    obtain ⟨t, ht, hmt⟩ := List.mem_flatMap.mp hm
    exact ((mergeable_iff (wf t ht)).mp (h t ht)).2 m (mem_byName.mp hmt) hmc c hcm
  · rintro ⟨hs, hn⟩ t ht
    refine (mergeable_iff (wf t ht)).mpr ⟨hs t ht, fun m hm hmc c hcm => ?_⟩
    have hflat : m ∈ ts.flatMap byName := List.mem_flatMap.mpr ⟨t, ht, mem_byName.mpr hm⟩
    obtain ⟨L, hL, hcL⟩ := mem_nested_of_child (every_flat wf m hflat) hflat hmc hcm
    exact hn L hL c hcL

theorem mergeTo_isSome {n : Nat} {ts : List Ty} (wf : ∀ t ∈ ts, t.WellFormed) (hd : ∀ t ∈ ts, depth t ≤ n) :
    (mergeTo n ts).isSome = true ↔ ∀ t ∈ ts, t.Mergeable := by
  rw [forall_mergeable_iff wf]
  induction n generalizing ts with
  | zero =>
    rw [mergeTo, Option.isSome_map, and_iff_left]
    -- nothing of depth zero is a container
    intro L hL t ht
    obtain ⟨c, hc, hcc, htc⟩ := child_of_mem_nested hL ht
    have := depth_child hcc htc
    have := depth_flat hd c hc
    omega
  | succ n ih =>
    have hrec (L : List Ty) (hL : L ∈ nested (ts.flatMap byName)) :
        (mergeTo n L).isSome = true ↔ ∀ t ∈ L, t.Mergeable := by
      have hw := every_nested (every_flat wf) hL
      rw [forall_mergeable_iff hw]
      exact ih hw (depth_nested (depth_flat hd) hL)
    rw [← forall₂_congr hrec, ← mergeContainers_isSome, mergeTo]
    cases hf : alternatives? ts with
    | none => simp
    | some flat =>
      obtain rfl := alternatives?_eq_some hf
      cases hc : mergeContainers (mergeTo n) (ts.flatMap byName) <;> simp [hc]

def hasText : Ty → Bool
  | .literal s => s.text?.isSome
  | _ => true

def Printable (t : Ty) : Prop := t.every true hasText = true

instance (t : Ty) : Decidable t.Printable := inferInstanceAs (Decidable (_ = true))

theorem onLeaves_hasText : OnLeaves hasText := by
  intro t
  cases t <;> simp [hasText]

theorem names?_isSome {ts : List Ty} : (names? ts).isSome = true ↔ ∀ t ∈ ts, (name? t).isSome = true := by
  induction ts with
  | nil => simp [names?]
  | cons t ts ih =>
    rw [List.forall_mem_cons, ← ih, names?]
    cases name? t <;> cases names? ts <;> simp

theorem fieldNames?_isSome {fs : List (String × Ty)} :
    (fieldNames? fs).isSome = true ↔ ∀ f ∈ fs, (name? f.2).isSome = true := by
  induction fs with
  | nil => simp [fieldNames?]
  | cons f fs ih =>
    obtain ⟨key, t⟩ := f
    rw [List.forall_mem_cons, ← ih]
    cases t with
    | oneOf ms =>
      simp only [fieldNames?, name?]
      cases names? ms <;> cases fieldNames? fs <;> simp
    | _ =>
      simp only [fieldNames?]
      cases name? _ <;> cases fieldNames? fs <;> simp

theorem name?_isSome {t : Ty} (h : t.Printable) : (name? t).isSome = true := by
  induction t using induct with
  | literal s => simpa [Printable, every, hasText, name?] using h
  | oneOf ms ih =>
    have hn := names?_isSome.mpr fun m hm => ih m hm (every_child h hm)
    obtain ⟨ns, hns⟩ := Option.isSome_iff_exists.mp hn
    simp [name?, hns]
  | object fs ih =>
    have hn := fieldNames?_isSome.mpr fun f hf => ih f hf (every_child h (List.mem_map_of_mem hf))
    obtain ⟨ns, hns⟩ := Option.isSome_iff_exists.mp hn
    cases fs with
    | nil => rfl
    | cons f fs => simp [name?, hns]
  | array e ih =>
    obtain ⟨n, hn⟩ := Option.isSome_iff_exists.mp (ih (every_child h (by simp [children])))
    simp [name?, hn]
  | tuple es ih =>
    have hn := names?_isSome.mpr fun e he => ih e he (every_child h he)
    obtain ⟨ns, hns⟩ := Option.isSome_iff_exists.mp hn
    simp [name?, hns]
  | function ps r ihp ihr =>
    have hn := names?_isSome.mpr fun p hp => ihp p hp (every_child h (by simp [children, hp]))
    obtain ⟨ns, hns⟩ := Option.isSome_iff_exists.mp hn
    obtain ⟨n, hn⟩ := Option.isSome_iff_exists.mp (ihr (every_child h (by simp [children])))
    simp [name?, hns, hn]
  | throws x => cases x <;> rfl
  | _ => rfl

theorem mergeable_of_printable {t : Ty} (h : t.Printable) : t.Mergeable := by
  induction t using ofChildren with
  | step t ih =>
    refine every_iff.mpr ⟨?_, fun c hc => ?_⟩
    · cases t with
      | oneOf ms => exact names?_isSome.mpr fun m hm => name?_isSome (every_child h hm)
      | _ => rfl
    · have hct : c ∈ t.children := by
        simp only [within] at hc
        split at hc
        · simp at hc
        · exact hc
      exact ih c hct (every_child h hct)

def prepared (exact : Bool) (t : Ty) : Ty := if exact then t else t.widen

theorem merge?_eq (exact : Bool) (ts : List Ty) :
    merge? exact ts = mergeTo (depthAll (ts.map (prepared exact))) (ts.map (prepared exact)) := by
  cases exact with
  | false => rfl
  | true =>
    have hp : ts.map (prepared true) = ts := List.map_id ts
    rw [hp]
    rfl

theorem every_prepared {d : Bool} {p : Ty → Bool} (hp : OnLeaves p) {exact : Bool} {t : Ty}
    (wf : t.WellFormed) (h : every d p t = true) : every d p (prepared exact t) = true := by
  cases exact with
  | false => exact every_widen hp wf (.inr h)
  | true => exact h

theorem wellFormed_prepared {exact : Bool} {t : Ty} (h : t.WellFormed) : (prepared exact t).WellFormed := by
  cases exact with
  | false => exact wellFormed_widen h
  | true => exact h

def mergedAs (exact : Bool) (ts : List Ty) : Ty := merged (ts.map (prepared exact))

theorem wellFormed_mergedAs {exact : Bool} {ts : List Ty} (wf : ∀ t ∈ ts, t.WellFormed) :
    (mergedAs exact ts).WellFormed :=
  wellFormed_merged (List.forall_mem_map.mpr fun t ht => wellFormed_prepared (wf t ht))

theorem eq_mergedAs_of_merge? {exact : Bool} {ts : List Ty} {t : Ty} (h : merge? exact ts = some t) :
    t = mergedAs exact ts :=
  mergeTo_eq_some ((merge?_eq exact ts).symm.trans h)

theorem merge?_eq_ite {exact : Bool} {ts : List Ty} (wf : ∀ t ∈ ts, t.WellFormed) : merge? exact ts =
    if ∀ t ∈ ts, (prepared exact t).Mergeable then some (mergedAs exact ts) else none := by
  have hw : ∀ t ∈ ts.map (prepared exact), t.WellFormed :=
    List.forall_mem_map.mpr fun t ht => wellFormed_prepared (wf t ht)
  have hs := mergeTo_isSome hw (depthAll_le.mp le_rfl)
  rw [← merge?_eq, List.forall_mem_map] at hs
  split
  · next h =>
    obtain ⟨t, ht⟩ := Option.isSome_iff_exists.mp (hs.mpr h)
    rw [ht, eq_mergedAs_of_merge? ht]
  · next h => exact Option.not_isSome_iff_eq_none.mp fun hm => h (hs.mp hm)

end Ty

end Casewise
