import Casewise.Proofs.Marking
import Casewise.Proofs.Symbolic.Invariant

namespace Casewise

theorem Number.same_mark (n : Number) (m : Mark) : ((mark n).run m).1.same ((mark n).run m).1 = true := by
  have hmarked (k : Mark) : same (.nan (some k)) (.nan (some k)) = true := by simp [same]
  unfold mark
  split
  · exact hmarked _
  · split
    · exact hmarked m
    · next h => exact same_self (a := n) (by simpa using h)

theorem Scalar.same_mark (s : Scalar) (m : Mark) :
    ((s.mapNumber Number.mark).run m).1.same ((s.mapNumber Number.mark).run m).1 = true := by
  cases s with
  | number n => exact n.same_mark m
  | _ => exact same_self rfl

namespace Ty

variable {t : Ty} {ts : List Ty}

structure Steady (t : Ty) : Prop where
  flat : t.Flat
  self : same t t = true

theorem same_self_widen (h : same t t = true) : same (widen t) (widen t) = true := by
  induction t using ofChildren with
  | step t ih =>
    have hc := (same_self_iff.mp h).2
    have hinner (c : Ty) (hm : c ∈ t.children) := ih c hm (hc c hm)
    cases t with
    | oneOf ms =>
      rw [widen, widenAll_eq_map]
      exact same_self_union (List.forall_mem_map.mpr hinner)
    | object fs =>
      rw [widen, widenFields_eq_map]
      refine same_self_of_children rfl ?_
      simp only [children, List.forall_mem_map] at hinner ⊢
      exact hinner
    | array e =>
      rw [widen]
      exact same_self_of_children rfl (List.forall_mem_singleton.mpr (hinner e (List.mem_singleton_self e)))
    | tuple es =>
      rw [widen, widenAll_eq_map]
      exact same_self_of_children rfl (List.forall_mem_map.mpr hinner)
    | literal s => simp [widen]
    | _ => exact h

theorem closed_steady : Closed Steady where
  primitive p := ⟨rfl, by simp⟩
  literal h := ⟨rfl, h⟩
  unknown := ⟨rfl, rfl⟩
  never := ⟨rfl, rfl⟩
  array {e} := by
    have hself : same (.array e) (.array e) = true ↔ same e e = true := by simp [same]
    exact ⟨fun h => ⟨flat_array.mp h.flat, hself.mp h.self⟩, fun h => ⟨flat_array.mpr h.flat, hself.mpr h.self⟩⟩
  tuple {es} := by
    have hself : same (.tuple es) (.tuple es) = true ↔ ∀ e ∈ es, same e e = true := by
      simp [same_tuple_left, List.forall₂_same]
    refine ⟨fun h e he => ⟨flat_tuple.mp h.flat e he, hself.mp h.self e he⟩, fun h => ⟨?_, ?_⟩⟩
    · exact flat_tuple.mpr fun e he => (h e he).flat
    · exact hself.mpr fun e he => (h e he).self
  function {ps r} := by
    have hself : same (.function ps r) (.function ps r) = true ↔ same r r = true ∧ ∀ p ∈ ps, same p p = true := by
      simp [same_function_left, List.forall₂_same, and_comm]
    constructor
    · intro h
      obtain ⟨hr, hp⟩ := flat_function.mp h.flat
      exact ⟨⟨hr, (hself.mp h.self).1⟩, fun p hm => ⟨hp p hm, (hself.mp h.self).2 p hm⟩⟩
    · rintro ⟨hr, hp⟩
      exact ⟨flat_function.mpr ⟨hr.flat, fun p hm => (hp p hm).flat⟩, hself.mpr ⟨hr.self, fun p hm => (hp p hm).self⟩⟩
  member h m hm := ⟨(flat_oneOf.mp h.flat).2 m hm, (same_self_iff.mp h.self).2 m hm⟩
  field h f hf := ⟨flat_object.mp h.flat f hf, (same_self_iff.mp h.self).2 f.2 (List.mem_map_of_mem hf)⟩
  union h := ⟨flat_union fun t ht => (h t ht).flat, same_self_union fun t ht => (h t ht).self⟩
  record {fs} h := by
    refine ⟨permissive_flat.record fun f hf => (h f hf).flat, same_self_of_children rfl ?_⟩
    refine List.forall_mem_map.mpr fun f hf => ?_
    exact Bindings.forall_mem_update (p := fun t => same t t = true) fs (by simp) (fun f hf => (h f hf).self) f
      (mem_sortBy.mp hf)
  widen h := ⟨flat_widen h.flat, same_self_widen h.self⟩

theorem Steady.absorbedBy_pair {a : Ty} (ha : a.Steady) (hts : ∀ t ∈ ts, t.Steady) (ht : t ∈ a :: ts) :
    t.AbsorbedBy (union [a, union ts]) := by
  have plain {us : List Ty} (hu : ∀ u ∈ us, u.Steady) :
      ∀ m ∈ us.flatMap parts, m = .unknown ∨ isAlternative m = true := by
    intro m hm
    obtain ⟨u, hum, hmu⟩ := List.mem_flatMap.mp hm
    exact (flat_parts (hu u hum).flat hmu).2
  have hall : ∀ u ∈ a :: ts, u.Steady := List.forall_mem_cons.mpr ⟨ha, hts⟩
  rw [union_cons_union (plain hts)]
  exact absorbedBy_union (plain hall) (fun u hu => (hall u hu).self) ht

theorem same_marked (t : Ty) (m : Mark) :
    same ((t.mapNumbers Number.mark).run m).1 ((t.mapNumbers Number.mark).run m).1 = true := by
  have all {ts : List Ty} (h : ∀ t ∈ ts, ∀ m, same ((t.mapNumbers Number.mark).run m).1
      ((t.mapNumbers Number.mark).run m).1 = true) (m : Mark) :
      ∀ u ∈ ((mapAll Number.mark ts).run m).1, same u u = true :=
    forall_mapAll (P := fun _ => True) (fun t ht _ => h t ht) (by simp) m
  induction t using induct generalizing m with
  | literal s => exact s.same_mark m
  | oneOf ms ih => exact same_self_of_children rfl (all ih m)
  | object fs ih =>
    refine same_self_of_children rfl (List.forall_mem_map.mpr ?_)
    exact forall_mapFields (P := fun _ => True) (Q := fun t => same t t = true) (fun f hf _ => ih f hf) (by simp) m
  | array e ih => exact same_self_of_children rfl (List.forall_mem_singleton.mpr (ih m))
  | tuple es ih => exact same_self_of_children rfl (all ih m)
  | function ps r ihp ihr => exact same_self_of_children rfl (List.forall_mem_cons.mpr ⟨ihr _, all ihp m⟩)
  | _ => exact same_self_of_children rfl (List.forall_mem_nil _)

theorem steady_marked (h : t.Flat) (m : Mark) : ((t.mapNumbers Number.mark).run m).1.Steady :=
  ⟨flat_mapNumbers h m, same_marked t m⟩

end Ty

theorem Symbolic.Setting.keeps_steady {cfg : Setting}
    (hm : ∀ name v, cfg.mocks.resolve? name = some v → v.type.Steady) : cfg.Keeps Ty.Steady Ty.Flat :=
  ⟨Ty.closed_steady, Ty.permissive_flat, fun _ h => h.flat, fun _ m h => Ty.steady_marked h m, hm⟩

end Casewise
