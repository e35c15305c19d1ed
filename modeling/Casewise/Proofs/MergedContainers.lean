import Casewise.Proofs.Merged
import Casewise.Proofs.Union

namespace Casewise.Ty

theorem proper_flat {ts : List Ty} (h : ∀ t ∈ ts, t.Proper) : ∀ m ∈ ts.flatMap byName, m.Proper := fun m hm =>
  ⟨every_flat (fun t ht => (h t ht).wellFormed) m hm, every_flat (fun t ht => (h t ht).nanFree) m hm⟩

theorem proper_nested {flat L : List Ty} (h : ∀ t ∈ flat, t.Proper) (hL : L ∈ nested flat) : ∀ t ∈ L, t.Proper :=
  fun t ht => ⟨every_nested (fun t ht => (h t ht).wellFormed) hL t ht,
    every_nested (fun t ht => (h t ht).nanFree) hL t ht⟩

theorem proper_merged {ts : List Ty} (h : ∀ t ∈ ts, t.Proper) : (merged ts).Proper :=
  ⟨wellFormed_merged fun t ht => (h t ht).wellFormed,
    every_mergedTo onLeaves_isNumberOrOther (fun t ht => (h t ht).wellFormed) fun t ht => (h t ht).nanFree⟩

theorem proper_mergedContainers {flat : List Ty} (h : ∀ t ∈ flat, t.Proper) :
    ∀ c ∈ mergedContainers merged flat, c.Proper := by
  have hg (L : List Ty) (hL : L ∈ nested flat) : (merged L).Proper := proper_merged (proper_nested h hL)
  have hw := wellFormed_mergedContainers fun L hL => (hg L hL).wellFormed
  have hn := every_mergedContainers onLeaves_isNumberOrOther (fun L hL => (hg L hL).wellFormed)
    fun L hL => (hg L hL).nanFree
  exact fun c hc => ⟨hw c hc, hn c hc⟩

inductive Slot where
  | present (key : String)
  | field (key : String)
  | element
  | place (length index : Nat)

namespace Slot

/-- What a container holds at a place; a field that an object lacks counts as the absent marker. -/
def get? : Slot → Ty → Option Ty
  | .present key, .object fs => Bindings.get? key fs
  | .field key, .object fs => some ((Bindings.get? key fs).getD undefined)
  | .element, .array e => some e
  | .place length index, .tuple es => if es.length = length then es[index]? else none
  | _, _ => none

def all (s : Slot) (flat : List Ty) : List Ty := flat.filterMap s.get?

end Slot

inductive Feature where
  | object
  | field (key : String)
  | array
  | tuple (length : Nat)

def Feature.holds : Feature → Ty → Bool
  | .object, .object _ => true
  | .field key, .object fs => (Bindings.get? key fs).isSome
  | .array, .array _ => true
  | .tuple length, .tuple es => es.length == length
  | _, _ => false

def Slot.kind : Slot → Feature
  | .present key => .field key
  | .field _ => .object
  | .element => .array
  | .place length _ => .tuple length

def Slot.Full : Slot → Prop
  | .present _ => False
  | .place length index => index < length
  | _ => True

def lacks (key : String) : Ty → Bool
  | .object fs => (Bindings.get? key fs).isNone
  | _ => false

theorem isContainer_of_same {x y : Ty} (h : same x y = true) : x.isContainer = y.isContainer := by
  cases x <;> cases y <;> simp_all [same, isContainer]

theorem isPrimitiveOrLiteral_container {c : Ty} (h : c.isContainer = true) : isPrimitiveOrLiteral c = false := by
  cases c with
  | primitive q => simp [isContainer] at h
  | literal s => simp [isContainer] at h
  | _ => rfl

theorem Slot.get?_eq_none (s : Slot) {x : Ty} (h : x.isContainer = false) : s.get? x = none := by
  cases x <;> cases s <;> simp_all [isContainer, get?]

theorem Feature.holds_eq_false (f : Feature) {x : Ty} (h : x.isContainer = false) : f.holds x = false := by
  cases x <;> cases f <;> simp_all [isContainer, holds]

theorem Slot.get?_of_same (s : Slot) {x y : Ty} (h : same x y = true) :
    Like (s.get? x).toList (s.get? y).toList := by
  have none : Like [] [] := by simp [Like]
  cases x with
  | object fs =>
    obtain ⟨gs, rfl, hg⟩ := same_object_left.mp h
    cases s with
    | present key =>
      rcases Ty.get?_of_same key hg with ⟨h₁, h₂⟩ | ⟨t, u, h₁, h₂, htu⟩
      · simpa [get?, h₁, h₂] using none
      · simpa [get?, h₁, h₂] using like_single htu
    | field key =>
      rcases Ty.get?_of_same key hg with ⟨h₁, h₂⟩ | ⟨t, u, h₁, h₂, htu⟩
      · simpa [get?, h₁, h₂] using like_single (x := undefined) rfl
      · simpa [get?, h₁, h₂] using like_single htu
    | _ => exact none
  | array e =>
    obtain ⟨e', rfl, he⟩ := same_array_left.mp h
    cases s with
    | element => exact like_single he
    | _ => exact none
  | tuple es =>
    obtain ⟨es', rfl, he⟩ := same_tuple_left.mp h
    cases s with
    | place length index =>
      simp only [get?, he.length_eq]
      split
      · by_cases hi : index < es.length
        · have hi' : index < es'.length := he.length_eq ▸ hi
          rw [List.getElem?_eq_getElem hi, List.getElem?_eq_getElem hi']
          exact like_single (he.get hi hi')
        · have hi' : ¬ index < es'.length := he.length_eq ▸ hi
          rw [List.getElem?_eq_none (by omega), List.getElem?_eq_none (by omega)]
          exact none
      · exact none
    | _ => exact none
  | _ =>
    rw [s.get?_eq_none rfl, s.get?_eq_none (isContainer_of_same h).symm]
    exact none

theorem Feature.holds_of_same (f : Feature) {x y : Ty} (h : same x y = true) : f.holds x = f.holds y := by
  cases x with
  | object fs =>
    obtain ⟨gs, rfl, hg⟩ := same_object_left.mp h
    cases f with
    | field key =>
      rcases Ty.get?_of_same key hg with ⟨h₁, h₂⟩ | ⟨t, u, h₁, h₂, _⟩ <;> simp [holds, h₁, h₂]
    | _ => rfl
  | array e =>
    obtain ⟨e', rfl, _⟩ := same_array_left.mp h
    cases f <;> rfl
  | tuple es =>
    obtain ⟨es', rfl, he⟩ := same_tuple_left.mp h
    cases f with
    | tuple length => simp [holds, he.length_eq]
    | _ => rfl
  | _ => rw [f.holds_eq_false rfl, f.holds_eq_false (isContainer_of_same h).symm]

theorem lacks_of_same (key : String) {x y : Ty} (h : same x y = true) : lacks key x = lacks key y := by
  cases x with
  | object fs =>
    obtain ⟨gs, rfl, hg⟩ := same_object_left.mp h
    rcases Ty.get?_of_same key hg with ⟨h₁, h₂⟩ | ⟨t, u, h₁, h₂, _⟩ <;> simp [lacks, h₁, h₂]
  | _ => cases y <;> simp_all [same, lacks]

theorem like_byName {t u : Ty} (h : same t u = true) : Like (byName t) (byName u) := by
  have hm := like_members h
  refine ⟨fun x hx => ?_, fun y hy => ?_⟩
  · obtain ⟨y, hy, hxy⟩ := hm.1 x (mem_byName.mp hx)
    exact ⟨y, mem_byName.mpr hy, hxy⟩
  · obtain ⟨x, hx, hxy⟩ := hm.2 y (mem_byName.mp hy)
    exact ⟨x, mem_byName.mpr hx, hxy⟩

section

variable {F G : List Ty}

theorem like_slot (s : Slot) (h : Like F G) : Like (s.all F) (s.all G) := by
  have hl := h.flatMap (f := fun t => (s.get? t).toList) fun x y => s.get?_of_same
  simpa only [Slot.all, List.filterMap_eq_flatMap_toList] using hl

theorem Slot.all_append (s : Slot) : s.all (F ++ G) = s.all F ++ s.all G := List.filterMap_append

theorem mem_slot {s : Slot} {t : Ty} : t ∈ s.all F ↔ ∃ c ∈ F, s.get? c = some t := List.mem_filterMap

theorem any_of_like (f : Feature) (h : Like F G) : F.any f.holds = G.any f.holds :=
  h.any fun _ _ => f.holds_of_same

theorem Slot.child {s : Slot} {c t : Ty} (h : s.get? c = some t) :
    c.isContainer = true ∧ (t ∈ c.children ∨ t = undefined) := by
  cases c with
  | object fs =>
    refine ⟨rfl, ?_⟩
    cases s with
    | present key => exact .inl (List.mem_map.mpr ⟨_, Bindings.mem_of_get? h, rfl⟩)
    | field key =>
      obtain rfl := Option.some.inj h
      cases hk : Bindings.get? key fs with
      | none => exact .inr rfl
      | some t => exact .inl (List.mem_map.mpr ⟨_, Bindings.mem_of_get? hk, rfl⟩)
    | _ => simp [get?] at h
  | array e =>
    cases s with
    | element => exact ⟨rfl, .inl (by simpa [children, eq_comm] using Option.some.inj h)⟩
    | _ => simp [get?] at h
  | tuple es =>
    cases s with
    | place length index =>
      simp only [get?, Option.ite_none_right_eq_some] at h
      exact ⟨rfl, .inl (List.mem_of_getElem? h.2)⟩
    | _ => simp [get?] at h
  | _ =>
    rw [s.get?_eq_none rfl] at h
    simp at h

theorem proper_slot (s : Slot) (h : ∀ t ∈ F, t.Proper) : ∀ t ∈ s.all F, t.Proper := by
  intro t ht
  obtain ⟨c, hc, hct⟩ := mem_slot.mp ht
  rcases (Slot.child hct).2 with htc | rfl
  · exact (h c hc).child htc
  · exact proper_undefined

theorem depth_slot {n : Nat} (s : Slot) (h : ∀ t ∈ F, depth t ≤ n) : ∀ t ∈ s.all F, depth t < n := by
  intro t ht
  obtain ⟨c, hc, hct⟩ := mem_slot.mp ht
  have hle := h c hc
  obtain ⟨hcc, htc | rfl⟩ := Slot.child hct
  · have := depth_child hcc htc
    omega
  · have hpos : 0 < depth c := by cases c <;> simp_all [isContainer, depth]
    have hz : depth undefined = 0 := rfl
    omega

theorem depth_slot_flat {n : Nat} {ts : List Ty} (s : Slot) (h : ∀ t ∈ ts, depth t < n + 1) :
    ∀ t ∈ s.all (ts.flatMap byName), depth t < n :=
  depth_slot s (depth_flat fun t ht => Nat.le_of_lt_succ (h t ht))

theorem exists_depth_lt (ts us : List Ty) : ∃ n, (∀ t ∈ ts, depth t < n) ∧ ∀ u ∈ us, depth u < n := by
  refine ⟨depthAll (ts ++ us) + 1, ?_⟩
  rw [← List.forall_mem_append]
  exact fun t ht => Nat.lt_succ_of_le (depthAll_le.mp le_rfl t ht)

theorem eq_nil_of_depth {ts : List Ty} (h : ∀ t ∈ ts, depth t < 0) : ts = [] :=
  List.eq_nil_iff_forall_not_mem.mpr fun t ht => Nat.not_lt_zero _ (h t ht)

end

section

variable {F G : List Ty}

theorem any_object : F.any Feature.object.holds = true ↔ F.filterMap fields? ≠ [] := by
  rw [List.any_eq_true]
  constructor
  · rintro ⟨t, ht, hf⟩
    cases t with
    | object fs => exact List.ne_nil_of_mem (mem_fields.mpr ht)
    | _ => simp [Feature.holds] at hf
  · intro h
    obtain ⟨fs, hfs⟩ := List.exists_mem_of_ne_nil _ h
    exact ⟨_, mem_fields.mp hfs, rfl⟩

theorem any_field {key : String} : F.any (Feature.field key).holds = true ↔ key ∈ fieldKeys (F.filterMap fields?) := by
  rw [List.any_eq_true, mem_fieldKeys]
  have hk (fs : List (String × Ty)) : (Bindings.get? key fs).isSome = true ↔ key ∈ Bindings.names fs := by
    rw [Option.isSome_iff_ne_none, ne_eq, Bindings.get?_eq_none_iff, not_not]
  constructor
  · rintro ⟨t, ht, hf⟩
    cases t with
    | object fs => exact ⟨fs, mem_fields.mpr ht, (hk fs).mp hf⟩
    | _ => simp [Feature.holds] at hf
  · rintro ⟨fs, hfs, hf⟩
    exact ⟨_, mem_fields.mp hfs, (hk fs).mpr hf⟩

theorem any_lacks {key : String} : F.any (lacks key) = true ↔
    ((F.filterMap fields?).filterMap (Bindings.get? key)).length < (F.filterMap fields?).length := by
  rw [(List.length_filterMap_le _ _).lt_iff_ne, ne_eq, List.filterMap_length_eq_length, List.any_eq_true]
  push Not
  constructor
  · rintro ⟨t, ht, hf⟩
    cases t with
    | object fs => exact ⟨fs, mem_fields.mpr ht, by simpa [lacks] using hf⟩
    | _ => simp [lacks] at hf
  · rintro ⟨fs, hfs, hf⟩
    exact ⟨_, mem_fields.mp hfs, by simpa [lacks] using hf⟩

theorem any_array : F.any Feature.array.holds = true ↔ F.filterMap element? ≠ [] := by
  rw [List.any_eq_true]
  constructor
  · rintro ⟨t, ht, hf⟩
    cases t with
    | array e => exact List.ne_nil_of_mem (mem_element.mpr ht)
    | _ => simp [Feature.holds] at hf
  · intro h
    obtain ⟨e, he⟩ := List.exists_mem_of_ne_nil _ h
    exact ⟨_, mem_element.mp he, rfl⟩

theorem any_tuple {length : Nat} :
    F.any (Feature.tuple length).holds = true ↔ ∃ es, .tuple es ∈ F ∧ es.length = length := by
  rw [List.any_eq_true]
  constructor
  · rintro ⟨t, ht, hf⟩
    cases t with
    | tuple es => exact ⟨es, ht, by simpa [Feature.holds] using hf⟩
    | _ => simp [Feature.holds] at hf
  · rintro ⟨es, hes, hl⟩
    exact ⟨_, hes, by simp [Feature.holds, hl]⟩

theorem present_eq (key : String) :
    (F.filterMap fields?).filterMap (Bindings.get? key) = (Slot.present key).all F := by
  rw [List.filterMap_filterMap, Slot.all]
  congr 1
  funext t
  cases t <;> rfl

theorem elements_eq : F.filterMap element? = Slot.element.all F := by
  rw [Slot.all]
  congr 1
  funext t
  cases t <;> rfl

theorem column_eq (length index : Nat) :
    ((F.filterMap elements?).filter (·.length == length)).filterMap (·[index]?) =
      (Slot.place length index).all F := by
  rw [List.filter_filterMap, List.filterMap_filterMap, Slot.all]
  congr 1
  funext t
  cases t with
  | tuple es => by_cases h : es.length = length <;> simp [elements?, Slot.get?, Option.filter, h]
  | _ => rfl

theorem mergedTuple_eq (length : Nat) : mergedTuple merged (F.filterMap elements?) length =
    .tuple ((List.range length).map fun i => merged ((Slot.place length i).all F)) := by
  simp only [mergedTuple, columns, List.map_map, Function.comp_def, column_eq]

theorem mergedField_eq (key : String) : mergedField merged (F.filterMap fields?) key =
    if F.any (lacks key) then union [merged ((Slot.present key).all F), undefined]
    else merged ((Slot.present key).all F) := by
  simp only [mergedField, ← present_eq]
  by_cases h : F.any (lacks key) = true
  · rw [if_pos h, if_pos (any_lacks.mp h)]
  · rw [if_neg h, if_neg (any_lacks.not.mp h)]

theorem mem_containers {c : Ty} : c ∈ mergedContainers merged F ↔
    (F.any Feature.object.holds = true ∧ c = mergedObject merged (F.filterMap fields?)) ∨
    (F.any Feature.array.holds = true ∧ c = .array (merged (Slot.element.all F))) ∨
    ∃ length, F.any (Feature.tuple length).holds = true ∧
      c = .tuple ((List.range length).map fun i => merged ((Slot.place length i).all F)) := by
  rw [mem_mergedContainers, any_object, any_array, ← elements_eq]
  refine or_congr_right (or_congr_right ?_)
  simp only [any_tuple, mergedTuple_eq]
  constructor
  · rintro ⟨es, hes, rfl⟩
    exact ⟨_, ⟨es, hes, rfl⟩, rfl⟩
  · rintro ⟨_, ⟨es, hes, rfl⟩, rfl⟩
    exact ⟨es, hes, rfl⟩

structure Inward (w : Ty → Ty) : Prop where
  object (fs : List (String × Ty)) : w (.object fs) = .object (fs.map fun f => (f.1, w f.2))
  array (e : Ty) : w (.array e) = .array (w e)
  tuple (es : List Ty) : w (.tuple es) = .tuple (es.map w)

theorem like_map_mergedContainers {w : Ty → Ty} (hw : Inward w) (hf : ∀ f : Feature, F.any f.holds = G.any f.holds)
    (hfield : ∀ key, F.any (Feature.field key).holds = true →
      same (mergedField merged (F.filterMap fields?) key) (w (mergedField merged (G.filterMap fields?) key)) = true)
    (helement : same (merged (Slot.element.all F)) (w (merged (Slot.element.all G))) = true)
    (hplace : ∀ length, ∀ i < length,
      same (merged ((Slot.place length i).all F)) (w (merged ((Slot.place length i).all G))) = true) :
    Like (mergedContainers merged F) ((mergedContainers merged G).map w) := by
  have hkeys : fieldKeys (F.filterMap fields?) = fieldKeys (G.filterMap fields?) := by
    refine eq_of_increasing (increasing_fieldKeys _) (increasing_fieldKeys _) fun key => ?_
    rw [← any_field, ← any_field, hf]
  have hobject : same (mergedObject merged (F.filterMap fields?)) (w (mergedObject merged (G.filterMap fields?))) =
      true := by
    rw [mergedObject, mergedObject, hw.object, List.map_map]
    refine same_object_left.mpr ⟨_, rfl, ?_⟩
    rw [← hkeys, List.forall₂_map_left_iff, List.forall₂_map_right_iff, List.forall₂_same]
    exact fun key hk => ⟨rfl, hfield key (any_field.mpr hk)⟩
  have harray := same_array_left.mpr ⟨_, hw.array _, helement⟩
  have htuple (length : Nat) :
      same (.tuple ((List.range length).map fun i => merged ((Slot.place length i).all F)))
        (w (.tuple ((List.range length).map fun i => merged ((Slot.place length i).all G)))) = true := by
    rw [hw.tuple, List.map_map]
    refine same_tuple_left.mpr ⟨_, rfl, ?_⟩
    rw [List.forall₂_map_left_iff, List.forall₂_map_right_iff, List.forall₂_same]
    exact fun i hi => hplace length i (List.mem_range.mp hi)
  refine ⟨fun c hc => ?_, fun d hd => ?_⟩
  · rcases mem_containers.mp hc with ⟨h, rfl⟩ | ⟨h, rfl⟩ | ⟨length, h, rfl⟩ <;> rw [hf] at h
    · exact ⟨_, List.mem_map_of_mem (mem_containers.mpr (.inl ⟨h, rfl⟩)), hobject⟩
    · exact ⟨_, List.mem_map_of_mem (mem_containers.mpr (.inr (.inl ⟨h, rfl⟩))), harray⟩
    · exact ⟨_, List.mem_map_of_mem (mem_containers.mpr (.inr (.inr ⟨length, h, rfl⟩))), htuple length⟩
  · obtain ⟨c, hc, rfl⟩ := List.mem_map.mp hd
    rcases mem_containers.mp hc with ⟨h, rfl⟩ | ⟨h, rfl⟩ | ⟨length, h, rfl⟩ <;> rw [← hf] at h
    · exact ⟨_, mem_containers.mpr (.inl ⟨h, rfl⟩), hobject⟩
    · exact ⟨_, mem_containers.mpr (.inr (.inl ⟨h, rfl⟩)), harray⟩
    · exact ⟨_, mem_containers.mpr (.inr (.inr ⟨length, h, rfl⟩)), htuple length⟩

theorem like_mergedContainers (hf : ∀ f : Feature, F.any f.holds = G.any f.holds)
    (hfield : ∀ key, F.any (Feature.field key).holds = true →
      same (mergedField merged (F.filterMap fields?) key) (mergedField merged (G.filterMap fields?) key) = true)
    (helement : same (merged (Slot.element.all F)) (merged (Slot.element.all G)) = true)
    (hplace : ∀ length, ∀ i < length,
      same (merged ((Slot.place length i).all F)) (merged ((Slot.place length i).all G)) = true) :
    Like (mergedContainers merged F) (mergedContainers merged G) := by
  have hid : Inward fun t : Ty => t := ⟨fun fs => by simp, fun e => rfl, fun es => by simp⟩
  have h := like_map_mergedContainers hid hf hfield helement hplace
  rwa [List.map_id'] at h

end

end Casewise.Ty
