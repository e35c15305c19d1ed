import Casewise.Proofs.Assignability
import Casewise.Proofs.Symbolic.Steady

namespace Casewise

namespace Ty

variable {t : Ty} {ts : List Ty}

theorem keyed_of_parts {m : Ty} (h : t.Keyed) (hm : m ∈ parts t) : m.Keyed := every_members h (parts_subset_members t hm)

theorem keyed_union (h : ∀ t ∈ ts, t.Keyed) : (union ts).Keyed := by
  rw [union_eq]
  split
  · rfl
  · have hkept : ∀ m ∈ normalized (distinctBy same (ts.flatMap parts)), m.Keyed := by
      intro m hm
      rcases mem_of_mem_normalized hm with hm | rfl
      · obtain ⟨t, ht, hmt⟩ := List.mem_flatMap.mp (mem_of_mem_distinctBy hm)
        exact keyed_of_parts (h t ht) hmt
      · rfl
    generalize normalized (distinctBy same (ts.flatMap parts)) = ms at hkept
    match ms, hkept with
    | [], _ => rfl
    | [m], hkept => exact hkept m (List.mem_singleton_self m)
    | m :: n :: ms, hkept => exact keyed_iff.mpr ⟨rfl, hkept⟩

theorem keyed_widen (h : t.Keyed) : (widen t).Keyed := by
  induction t using ofChildren with
  | step t ih =>
    have hc := (keyed_iff.mp h).2
    have hinner (c : Ty) (hm : c ∈ t.children) := ih c hm (hc c hm)
    cases t with
    | oneOf ms =>
      rw [widen, widenAll_eq_map]
      exact keyed_union (List.forall_mem_map.mpr hinner)
    | object fs =>
      rw [widen, widenFields_eq_map]
      have hnames : Bindings.names (fs.map fun f => (f.1, widen f.2)) = Bindings.names fs := by simp [Bindings.names]
      simp only [children, List.forall_mem_map] at hinner
      exact keyed_object.mpr ⟨hnames ▸ (keyed_object.mp h).1, List.forall_mem_map.mpr hinner⟩
    | array e =>
      rw [widen]
      exact keyed_iff.mpr ⟨rfl, List.forall_mem_singleton.mpr (hinner e (List.mem_singleton_self e))⟩
    | tuple es =>
      rw [widen, widenAll_eq_map]
      exact keyed_iff.mpr ⟨rfl, List.forall_mem_map.mpr hinner⟩
    | literal s => rfl
    | _ => exact h

theorem permissive_keyed : Permissive Keyed where
  primitive _ := rfl
  literal _ := rfl
  scalar _ := rfl
  unknown := rfl
  never := rfl
  array := keyed_iff.trans (by simp [hasIncreasingNames, children])
  tuple := keyed_iff.trans (by simp [hasIncreasingNames, children])
  function := keyed_iff.trans (by simp [hasIncreasingNames, children])
  member h := (keyed_iff.mp h).2
  field h := (keyed_object.mp h).2
  union := keyed_union
  record {fs} h := keyed_object.mpr ⟨sortBy_strict (Bindings.nodup_names_ofPairs fs), fun f hf =>
    Bindings.forall_mem_update (p := Keyed) fs (by simp) h f (mem_sortBy.mp hf)⟩
  widen := keyed_widen

theorem names_mapFields {σ : Type} (f : Number → StateM σ Number) (fs : List (String × Ty)) (s : σ) :
    Bindings.names ((mapFields f fs).run s).1 = Bindings.names fs := by
  induction fs generalizing s with
  | nil => rfl
  | cons g fs ih => exact congrArg (g.1 :: ·) (ih ((g.2.mapNumbers f).run s).2)

theorem keyed_mapNumbers {σ : Type} {f : Number → StateM σ Number} (h : t.Keyed) (s : σ) :
    ((t.mapNumbers f).run s).1.Keyed := by
  have hclosed := permissive_keyed
  induction t using induct generalizing s with
  | oneOf ms ih => exact keyed_iff.mpr ⟨rfl, forall_mapAll ih (hclosed.member h) s⟩
  | object fs ih =>
    exact keyed_object.mpr ⟨names_mapFields f fs s ▸ (keyed_object.mp h).1, forall_mapFields ih (hclosed.field h) s⟩
  | array e ih => exact hclosed.array.mpr (ih (hclosed.array.mp h) s)
  | tuple es ih => exact hclosed.tuple.mpr (forall_mapAll ih (hclosed.tuple.mp h) s)
  | function ps r hps hr =>
    obtain ⟨hkr, hkp⟩ := hclosed.function.mp h
    exact hclosed.function.mpr ⟨hr hkr _, forall_mapAll hps hkp s⟩
  | _ => exact h

theorem Closed.and {K L : Ty → Prop} (hK : Closed K) (hL : Closed L) : Closed fun t => K t ∧ L t where
  primitive p := ⟨hK.primitive p, hL.primitive p⟩
  literal hs := ⟨hK.literal hs, hL.literal hs⟩
  unknown := ⟨hK.unknown, hL.unknown⟩
  never := ⟨hK.never, hL.never⟩
  array := and_congr hK.array hL.array
  tuple := (and_congr hK.tuple hL.tuple).trans forall₂_and.symm
  function {ps r} := by rw [hK.function, hL.function, and_and_and_comm, ← forall₂_and]
  member h m hm := ⟨hK.member h.1 m hm, hL.member h.2 m hm⟩
  field h f hf := ⟨hK.field h.1 f hf, hL.field h.2 f hf⟩
  union h := ⟨hK.union fun t ht => (h t ht).1, hL.union fun t ht => (h t ht).2⟩
  record h := ⟨hK.record fun f hf => (h f hf).1, hL.record fun f hf => (h f hf).2⟩
  widen h := ⟨hK.widen h.1, hL.widen h.2⟩

theorem Permissive.and {K L : Ty → Prop} (hK : Permissive K) (hL : Permissive L) : Permissive fun t => K t ∧ L t :=
  { hK.toClosed.and hL.toClosed with scalar := fun s => ⟨hK.scalar s, hL.scalar s⟩ }

def Tidy (t : Ty) : Prop := t.Steady ∧ t.Keyed

theorem closed_tidy : Closed Tidy := closed_steady.and permissive_keyed.toClosed

theorem isOneOf_members_of_flat {m : Ty} (h : t.Flat) (hm : m ∈ t.members) : m.isOneOf = false := by
  cases t with
  | oneOf ms =>
    have hplain := (flat_oneOf.mp h).1 m hm
    cases m with
    | oneOf _ => cases hplain
    | _ => rfl
  | _ => exact List.mem_singleton.mp hm ▸ rfl

theorem Tidy.assignable_union (h : ∀ t ∈ ts, t.Tidy) (ht : t ∈ ts) : assignable t (union ts) = true := by
  by_cases hu : Found (ts.flatMap parts) .unknown
  · rw [union_of_unknown hu]
    exact assignable_unknown t
  · have hplain {m : Ty} (hm : m ∈ ts.flatMap parts) : isAlternative m = true := by
      obtain ⟨u, hum, hmu⟩ := List.mem_flatMap.mp hm
      refine (flat_parts (h u hum).1.flat hmu).2.resolve_left ?_
      rintro rfl
      exact hu (found_unknown.mpr hm)
    have hparts : parts (union ts) = normalized (distinctBy same (ts.flatMap parts)) := by
      rw [union_eq, if_neg (unknown_mem_distinct.not.mpr hu)]
      refine parts_collapse (reduced_normalized (pairwise_distinctBy same _) fun m hm => ?_).plain
      exact hplain (mem_of_mem_distinctBy hm)
    have hpart (m : Ty) (hm : m ∈ parts t) : assignable m (union ts) = true := by
      have hmem : m ∈ ts.flatMap parts := List.mem_flatMap.mpr ⟨t, ht, hm⟩
      have hself : assignable m m = true :=
        assignable_of_same_of_keyed (keyed_of_parts (h t ht).2 hm) (same_self_parts (h t ht).1.self hm)
      obtain ⟨u, hum, hmu⟩ := exists_normalized_of_assignable (hplain hmem) hmem hself
      have hflat := flat_union fun t ht => (h t ht).1.flat
      refine (assignable_iff_exists (hplain hmem) fun _ => isOneOf_members_of_flat hflat).mpr ⟨u, ?_, hmu⟩
      exact parts_subset_members _ (hparts ▸ hum)
    cases t with
    | oneOf ms => exact (assignable_oneOf ms _).mpr (.inr hpart)
    | never => rfl
    | _ => exact hpart _ (List.mem_singleton_self _)

end Ty

theorem Symbolic.Setting.keeps_tidy {cfg : Symbolic.Setting}
    (hm : ∀ name v, cfg.mocks.resolve? name = some v → v.type.Tidy) :
    cfg.Keeps Ty.Tidy fun t => t.Flat ∧ t.Keyed where
  closed := Ty.closed_tidy
  raw := Ty.permissive_flat.and Ty.permissive_keyed
  raw_of_holds _ h := ⟨h.1.flat, h.2⟩
  marked _ m h := ⟨Ty.steady_marked h.1 m, Ty.keyed_mapNumbers h.2 m⟩
  mocks := hm

end Casewise
