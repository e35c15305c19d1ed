import Casewise.Proofs.Same
import Casewise.Ty.Union

/-!
The normal form of types. Alternatives are at least two, all different, none of them a union, `never` or
`unknown`, without a literal beside its primitive and without both truth values; the names of an object's
fields increase. `union` and `record` produce this form from parts that have it.
-/

namespace Casewise.Ty

mutual

def every (functions : Bool) (p : Ty → Bool) : Ty → Bool
  | .oneOf ms => p (.oneOf ms) && everyAll functions p ms
  | .object fs => p (.object fs) && everyField functions p fs
  | .array e => p (.array e) && every functions p e
  | .tuple es => p (.tuple es) && everyAll functions p es
  | .function ps r => p (.function ps r) && (!functions || every functions p r && everyAll functions p ps)
  | t => p t

def everyAll (functions : Bool) (p : Ty → Bool) : List Ty → Bool
  | [] => true
  | t :: ts => every functions p t && everyAll functions p ts

def everyField (functions : Bool) (p : Ty → Bool) : List (String × Ty) → Bool
  | [] => true
  | (_, t) :: fs => every functions p t && everyField functions p fs

end

def within (functions : Bool) (t : Ty) : List Ty := if !functions && t.isFunction then [] else t.children

section

variable {d : Bool} {p : Ty → Bool}

theorem everyAll_iff {ts : List Ty} : everyAll d p ts = true ↔ ∀ t ∈ ts, every d p t = true := by
  induction ts with
  | nil => simp [everyAll]
  | cons t ts ih => simp [everyAll, ih]

theorem everyField_iff {fs : List (String × Ty)} : everyField d p fs = true ↔ ∀ f ∈ fs, every d p f.2 = true := by
  induction fs with
  | nil => simp [everyField]
  | cons f fs ih => simp [everyField, ih]

theorem every_iff {t : Ty} : every d p t = true ↔ p t = true ∧ ∀ c ∈ t.within d, every d p c = true := by
  cases t with
  | function ps r =>
    cases d <;> simp [every, within, isFunction, children, everyAll_iff]
  | _ =>
    simp only [every, within, isFunction, Bool.and_false, if_false, Bool.false_eq_true, children, everyAll_iff,
      everyField_iff, Bool.and_eq_true, List.forall_mem_map, List.forall_mem_cons, List.not_mem_nil, false_imp_iff,
      implies_true, and_true]

theorem within_eq {t : Ty} (h : t.isFunction = false) : t.within d = t.children := by
  simp [within, h]

theorem every_inside {t c : Ty} (h : every d p t = true) (hf : t.isFunction = false) (hc : c ∈ t.children) :
    every d p c = true := by
  rw [← within_eq (d := d) hf] at hc
  exact (every_iff.mp h).2 c hc

theorem every_members {t m : Ty} (h : every d p t = true) (hm : m ∈ t.members) : every d p m = true := by
  cases t with
  | oneOf ms => exact every_inside h rfl hm
  | _ => exact List.mem_singleton.mp hm ▸ h

theorem every_child {t c : Ty} (h : every true p t = true) (hc : c ∈ t.children) : every true p c = true :=
  (every_iff.mp h).2 c hc

end

def isAlternative : Ty → Bool
  | .oneOf _ => false
  | .unknown => false
  | .never => false
  | _ => true

structure Reduced (ms : List Ty) : Prop where
  distinct : ms.Pairwise fun a b => same a b = false
  plain : ∀ m ∈ ms, isAlternative m = true
  unabsorbed : ∀ m ∈ ms, absorbed ms m = false
  unfolded : ¬ (ms.any (isBool true) = true ∧ ms.any (isBool false) = true)

instance (ms : List Ty) : Decidable (Reduced ms) :=
  decidable_of_iff ((ms.Pairwise fun a b => same a b = false) ∧ (∀ m ∈ ms, isAlternative m = true) ∧
      (∀ m ∈ ms, absorbed ms m = false) ∧ ¬ (ms.any (isBool true) = true ∧ ms.any (isBool false) = true))
    ⟨fun ⟨h₁, h₂, h₃, h₄⟩ => ⟨h₁, h₂, h₃, h₄⟩, fun ⟨h₁, h₂, h₃, h₄⟩ => ⟨h₁, h₂, h₃, h₄⟩⟩

def isNormal : Ty → Bool
  | .oneOf ms => decide (2 ≤ ms.length ∧ Reduced ms)
  | .object fs => decide ((Bindings.names fs).Pairwise (· < ·))
  | _ => true

def WellFormed (t : Ty) : Prop := t.every true isNormal = true

instance (t : Ty) : Decidable t.WellFormed := inferInstanceAs (Decidable (_ = true))

section

variable {ms ps : List Ty} {fs : List (String × Ty)} {e r : Ty}

theorem wellFormed_oneOf : WellFormed (.oneOf ms) ↔ (2 ≤ ms.length ∧ Reduced ms) ∧ ∀ m ∈ ms, m.WellFormed := by
  simp only [WellFormed, every, everyAll_iff, isNormal, Bool.and_eq_true, decide_eq_true_eq]

theorem wellFormed_object :
    WellFormed (.object fs) ↔ (Bindings.names fs).Pairwise (· < ·) ∧ ∀ f ∈ fs, f.2.WellFormed := by
  simp only [WellFormed, every, everyField_iff, isNormal, Bool.and_eq_true, decide_eq_true_eq]

@[simp] theorem wellFormed_array : WellFormed (.array e) ↔ e.WellFormed := by
  simp [WellFormed, every, isNormal]

@[simp] theorem wellFormed_tuple : WellFormed (.tuple ms) ↔ ∀ m ∈ ms, m.WellFormed := by
  simp [WellFormed, every, everyAll_iff, isNormal]

@[simp] theorem wellFormed_function :
    WellFormed (.function ps r) ↔ r.WellFormed ∧ ∀ p ∈ ps, p.WellFormed := by
  simp [WellFormed, every, everyAll_iff, isNormal]

@[simp] theorem wellFormed_primitive (p : Primitive) : WellFormed (.primitive p) := rfl

@[simp] theorem wellFormed_literal (s : Scalar) : WellFormed (.literal s) := rfl

@[simp] theorem wellFormed_unknown : WellFormed .unknown := rfl

@[simp] theorem wellFormed_never : WellFormed .never := rfl

end

def normalized (flat : List Ty) : List Ty :=
  (foldBooleans flat).filter fun t => !absorbed (foldBooleans flat) t

theorem union_eq (ts : List Ty) : union ts =
    if (distinctBy same (ts.flatMap parts)).any isUnknown then .unknown
    else collapse (normalized (distinctBy same (ts.flatMap parts))) := rfl

@[simp] theorem isPrimitive_iff {q : Primitive} {t : Ty} : isPrimitive q t = true ↔ t = .primitive q := by
  cases t with
  | primitive r => simpa [isPrimitive] using eq_comm
  | _ => simp [isPrimitive]

@[simp] theorem isBool_iff {b : Bool} {t : Ty} : isBool b t = true ↔ t = bool b := by
  cases t with
  | literal s =>
    cases s with
    | boolean c => simpa [isBool, bool] using eq_comm
    | _ => simp [isBool, bool]
  | _ => simp [isBool, bool]

@[simp] theorem isUnknown_iff {t : Ty} : isUnknown t = true ↔ t = .unknown := by
  cases t <;> simp [isUnknown]

theorem any_isBool {ts : List Ty} {b : Bool} : ts.any (isBool b) = true ↔ bool b ∈ ts := by
  simp

theorem any_isUnknown {ts : List Ty} : ts.any isUnknown = true ↔ .unknown ∈ ts := by
  simp

theorem mem_foldBooleans {flat : List Ty} {m : Ty} :
    m ∈ foldBooleans flat ↔ m ∈ flat ∨ (m = boolean ∧ bool true ∈ flat ∧ bool false ∈ flat) := by
  by_cases hb : bool true ∈ flat ∧ bool false ∈ flat
  · by_cases hp : boolean ∈ flat
    · have hf : foldBooleans flat = flat := by
        simp only [boolean] at hp
        simp [foldBooleans, hp]
      rw [hf]
      exact ⟨.inl, fun h => h.elim id fun h => h.1 ▸ hp⟩
    · have hf : foldBooleans flat = flat ++ [boolean] := by
        simp only [boolean] at hp
        simp [foldBooleans, hb, hp]
      simp [hf, hb]
  · have hf : foldBooleans flat = flat := by
      unfold foldBooleans
      rw [if_neg]
      simp only [Bool.and_eq_true, any_isBool]
      exact fun h => hb h.1
    simp [hf, hb]

theorem absorbed_iff {ts : List Ty} {m : Ty} :
    absorbed ts m = true ↔ ∃ s, m = .literal s ∧ .primitive s.primitive ∈ ts := by
  cases m <;> simp [absorbed]

theorem mem_normalized {flat : List Ty} {m : Ty} :
    m ∈ normalized flat ↔ m ∈ foldBooleans flat ∧ absorbed (foldBooleans flat) m = false := by
  simp [normalized]

theorem mem_of_mem_normalized {flat : List Ty} {m : Ty} (h : m ∈ normalized flat) : m ∈ flat ∨ m = boolean :=
  (mem_foldBooleans.mp (mem_normalized.mp h).1).imp_right And.left

theorem pairwise_foldBooleans {flat : List Ty} (h : flat.Pairwise fun a b => same a b = false) :
    (foldBooleans flat).Pairwise fun a b => same a b = false := by
  unfold foldBooleans
  split
  · next hc =>
    refine List.pairwise_append.mpr ⟨h, by simp, fun a ha b hb => ?_⟩
    obtain rfl := List.mem_singleton.mp hb
    -- `boolean` joins only a list that lacks it
    have hn : boolean ∉ flat := by
      simp only [Bool.and_eq_true, Bool.not_eq_true', List.any_eq_false, isPrimitive_iff] at hc
      exact fun hm => hc.2 _ hm rfl
    rw [Bool.eq_false_iff]
    intro hs
    have ha' : a = boolean := same_primitive_left.mp (same_symm hs)
    exact hn (ha' ▸ ha)
  · exact h

theorem pairwise_normalized {flat : List Ty} (h : flat.Pairwise fun a b => same a b = false) :
    (normalized flat).Pairwise fun a b => same a b = false := (pairwise_foldBooleans h).filter _

theorem reduced_normalized {flat : List Ty} (distinct : flat.Pairwise fun a b => same a b = false)
    (plain : ∀ m ∈ flat, isAlternative m = true) : Reduced (normalized flat) where
  distinct := pairwise_normalized distinct
  plain m hm := by
    rcases mem_of_mem_normalized hm with h | rfl
    · exact plain m h
    · rfl
  unabsorbed m hm := by
    rw [Bool.eq_false_iff]
    intro ha
    obtain ⟨s, rfl, hp⟩ := absorbed_iff.mp ha
    have hn := (mem_normalized.mp hm).2
    have hy : absorbed (foldBooleans flat) (.literal s) = true :=
      absorbed_iff.mpr ⟨s, rfl, (mem_normalized.mp hp).1⟩
    simp [hy] at hn
  unfolded := by
    rintro ⟨ht, hf⟩
    obtain ⟨ht, hn⟩ := mem_normalized.mp (any_isBool.mp ht)
    have hf := (mem_normalized.mp (any_isBool.mp hf)).1
    have hb : boolean ∈ foldBooleans flat := by
      simp only [mem_foldBooleans, bool, boolean, reduceCtorEq, false_and, or_false] at ht hf
      exact mem_foldBooleans.mpr (.inr ⟨rfl, ht, hf⟩)
    have hy : absorbed (foldBooleans flat) (bool true) = true := absorbed_iff.mpr ⟨_, rfl, hb⟩
    simp [hy] at hn

theorem parts_of_alternative {m : Ty} (h : isAlternative m = true) : parts m = [m] := by
  cases m with
  | oneOf ms => simp [isAlternative] at h
  | never => simp [isAlternative] at h
  | _ => rfl

theorem wellFormed_parts {t m : Ty} (ht : t.WellFormed) (hm : m ∈ parts t) :
    m.WellFormed ∧ (m = .unknown ∨ isAlternative m = true) := by
  cases t with
  | oneOf ms =>
    obtain ⟨⟨_, hr⟩, hw⟩ := wellFormed_oneOf.mp ht
    exact ⟨hw m hm, .inr (hr.plain m hm)⟩
  | never => simp [parts] at hm
  | unknown => simp_all [parts, members]
  | _ =>
    obtain rfl := List.mem_singleton.mp hm
    exact ⟨ht, .inr rfl⟩

theorem members_of_not_oneOf {t : Ty} (h : t.isOneOf = false) : t.members = [t] := by
  cases t <;> simp_all [isOneOf, members]

theorem isOneOf_members {e m : Ty} (he : e.WellFormed) (hm : m ∈ e.members) : m.isOneOf = false := by
  cases e with
  | oneOf es =>
    have hp := (wellFormed_oneOf.mp he).1.2.plain m hm
    cases m <;> simp_all [isAlternative, isOneOf]
  | _ =>
    obtain rfl := List.mem_singleton.mp hm
    rfl

theorem union_induct {P : Ty → Prop} {ts : List Ty} (wf : ∀ t ∈ ts, t.WellFormed)
    (part : ∀ t ∈ ts, ∀ m ∈ parts t, P m) (never : P .never) (boolean : P boolean)
    (oneOf : ∀ ms, 2 ≤ ms.length → Reduced ms → (∀ m ∈ ms, P m) → P (.oneOf ms)) : P (union ts) := by
  have hflat {m : Ty} (hm : m ∈ distinctBy same (ts.flatMap parts)) :
      P m ∧ (m = .unknown ∨ isAlternative m = true) := by
    obtain ⟨t, ht, hmt⟩ := List.mem_flatMap.mp (mem_of_mem_distinctBy hm)
    exact ⟨part t ht m hmt, (wellFormed_parts (wf t ht) hmt).2⟩
  rw [union_eq]
  split
  · next hu => exact (hflat (any_isUnknown.mp hu)).1
  · next hu =>
    have hr := reduced_normalized (pairwise_distinctBy same (ts.flatMap parts)) fun m hm =>
      (hflat hm).2.resolve_left fun h => hu (any_isUnknown.mpr (h ▸ hm))
    have hp : ∀ m ∈ normalized (distinctBy same (ts.flatMap parts)), P m := by
      intro m hm
      rcases mem_of_mem_normalized hm with h | rfl
      · exact (hflat h).1
      · exact boolean
    generalize normalized (distinctBy same (ts.flatMap parts)) = ms at hr hp
    match ms with
    | [] => exact never
    | [m] => exact hp m (by simp)
    | _ :: _ :: _ => exact oneOf _ (by simp) hr hp

theorem wellFormed_union {ts : List Ty} (h : ∀ t ∈ ts, t.WellFormed) : (union ts).WellFormed :=
  union_induct h (fun t ht _ hm => (wellFormed_parts (h t ht) hm).1) wellFormed_never (wellFormed_primitive _)
    fun _ hl hr hm => wellFormed_oneOf.mpr ⟨⟨hl, hr⟩, hm⟩

theorem wellFormed_record {fs : List (String × Ty)} (h : ∀ f ∈ fs, f.2.WellFormed) : (record fs).WellFormed := by
  refine wellFormed_object.mpr ⟨sortBy_strict (Bindings.nodup_names_ofPairs fs), fun f hf => ?_⟩
  exact Bindings.forall_mem_update (p := WellFormed) fs (by simp) h f (mem_sortBy.mp hf)

theorem wellFormed_stripUndefined {t : Ty} (h : t.WellFormed) : (stripUndefined t).WellFormed := by
  cases t with
  | oneOf ms => exact wellFormed_union fun m hm => (wellFormed_oneOf.mp h).2 m (List.mem_filter.mp hm).1
  | _ => exact h

theorem widenAll_eq_map (ts : List Ty) : widenAll ts = ts.map widen := by
  induction ts with
  | nil => rfl
  | cons t ts ih => simp [widenAll, ih]

theorem widenFields_eq_map (fs : List (String × Ty)) : widenFields fs = fs.map fun f => (f.1, widen f.2) := by
  induction fs with
  | nil => rfl
  | cons f fs ih => simp [widenFields, ih]

theorem wellFormed_widen {t : Ty} (h : t.WellFormed) : (widen t).WellFormed := by
  induction t using induct with
  | oneOf ms ih =>
    rw [widen, widenAll_eq_map]
    refine wellFormed_union fun m hm => ?_
    obtain ⟨m, hm', rfl⟩ := List.mem_map.mp hm
    exact ih m hm' ((wellFormed_oneOf.mp h).2 m hm')
  | object fs ih =>
    obtain ⟨hs, hw⟩ := wellFormed_object.mp h
    rw [widen, widenFields_eq_map, wellFormed_object]
    refine ⟨by simpa [Bindings.names, Function.comp_def] using hs, fun f hf => ?_⟩
    obtain ⟨f, hf', rfl⟩ := List.mem_map.mp hf
    exact ih f hf' (hw f hf')
  | array e ih => exact wellFormed_array.mpr (ih (wellFormed_array.mp h))
  | tuple es ih =>
    rw [widen, widenAll_eq_map, wellFormed_tuple]
    intro e he
    obtain ⟨e, he', rfl⟩ := List.mem_map.mp he
    exact ih e he' (wellFormed_tuple.mp h e he')
  | literal s => exact wellFormed_primitive _
  | _ => exact h

theorem normalized_of_reduced {ms : List Ty} (h : Reduced ms) : normalized ms = ms := by
  have hf : foldBooleans ms = ms := by
    rw [foldBooleans, if_neg]
    simp only [Bool.and_eq_true]
    exact fun hb => h.unfolded hb.1
  rw [normalized, hf, List.filter_eq_self.mpr]
  intro m hm
  rw [h.unabsorbed m hm, Bool.not_false]

theorem flatMap_parts_of_plain {ms : List Ty} (h : ∀ m ∈ ms, isAlternative m = true) : ms.flatMap parts = ms := by
  rw [List.flatMap_congr fun m hm => parts_of_alternative (h m hm), List.flatMap_singleton']

theorem union_of_reduced {ms : List Ty} (hl : 2 ≤ ms.length) (h : Reduced ms) : union ms = .oneOf ms := by
  have hp := flatMap_parts_of_plain h.plain
  have hu : ¬ ms.any isUnknown = true := by
    rw [any_isUnknown]
    intro hm
    simpa [isAlternative] using h.plain _ hm
  rw [union_eq, hp, distinctBy_of_pairwise h.distinct, if_neg hu, normalized_of_reduced h]
  match ms, hl with
  | _ :: _ :: _, _ => rfl

theorem every_widen_iff {d : Bool} {p : Ty → Bool} {t : Ty} (ho : t.isOneOf = false) (hf : t.isFunction = false) :
    every d p (widen t) = true ↔ p (widen t) = true ∧ ∀ c ∈ t.children, every d p (widen c) = true := by
  have hchildren : (widen t).within d = t.children.map widen := by
    cases t with
    | oneOf ms => simp [isOneOf] at ho
    | function ps r => simp [isFunction] at hf
    | object fs =>
      rw [widen, widenFields_eq_map, within_eq rfl, children, children, List.map_map, List.map_map]
      rfl
    | tuple es => rw [widen, widenAll_eq_map, within_eq rfl, children, children]
    | _ => exact within_eq rfl
  rw [every_iff, hchildren, List.forall_mem_map]

def OnLeaves (p : Ty → Bool) : Prop := ∀ t, p t = true ∨ (∃ s, t = .literal s) ∨ t = .unknown

section

variable {d : Bool} {p : Ty → Bool} (hp : OnLeaves p)

include hp

theorem every_union {ts : List Ty} (wf : ∀ t ∈ ts, t.WellFormed) (h : ∀ t ∈ ts, every d p t = true) :
    every d p (union ts) = true := by
  refine union_induct (P := fun t => every d p t = true) wf (fun t ht m hm => ?_) ?_ ?_ fun ms _ _ hm => ?_
  · have ht := h t ht
    cases t with
    | oneOf ms => exact every_inside ht rfl hm
    | never => simp [parts] at hm
    | _ => exact List.mem_singleton.mp hm ▸ ht
  · exact (hp .never).resolve_right (by simp)
  · exact (hp boolean).resolve_right (by simp [boolean])
  · refine every_iff.mpr ⟨(hp (.oneOf ms)).resolve_right (by simp), ?_⟩
    rw [within_eq rfl]
    exact hm

theorem every_widen {t : Ty} (wf : t.WellFormed) (h : (d = false ∧ p .unknown = true) ∨ every d p t = true) :
    every d p (widen t) = true := by
  have inside {t c : Ty} (h : (d = false ∧ p .unknown = true) ∨ every d p t = true) (hf : t.isFunction = false)
      (hc : c ∈ t.children) : (d = false ∧ p .unknown = true) ∨ every d p c = true :=
    h.imp_right fun h => every_inside h hf hc
  induction t using induct with
  | literal s => exact (hp (.primitive _)).resolve_right (by simp)
  | oneOf ms ih =>
    have hw := (wellFormed_oneOf.mp wf).2
    rw [widen, widenAll_eq_map]
    refine every_union hp (List.forall_mem_map.mpr fun m hm => wellFormed_widen (hw m hm)) ?_
    exact List.forall_mem_map.mpr fun m hm => ih m hm (hw m hm) (inside h rfl hm)
  | object fs ih =>
    have hw := (wellFormed_object.mp wf).2
    refine (every_widen_iff rfl rfl).mpr ⟨(hp _).resolve_right (by simp [widen]), List.forall_mem_map.mpr ?_⟩
    exact fun f hf => ih f hf (hw f hf) (inside h rfl (List.mem_map_of_mem hf))
  | array e ih =>
    refine (every_widen_iff rfl rfl).mpr ⟨(hp _).resolve_right (by simp [widen]), List.forall_mem_singleton.mpr ?_⟩
    exact ih (wellFormed_array.mp wf) (inside h rfl (by simp [children]))
  | tuple es ih =>
    have hw := wellFormed_tuple.mp wf
    refine (every_widen_iff rfl rfl).mpr ⟨(hp _).resolve_right (by simp [widen]), ?_⟩
    exact fun e he => ih e he (hw e he) (inside h rfl he)
  | function ps r _ _ =>
    rcases h with ⟨rfl, _⟩ | h
    · exact every_iff.mpr ⟨(hp _).resolve_right (by simp [widen]), by simp [widen, within, isFunction]⟩
    · exact h
  | unknown => exact h.elim And.right id
  | _ => exact (hp _).resolve_right (by simp [widen])

end

def isNotLiteral : Ty → Bool
  | .literal _ => false
  | _ => true

def LiteralFree (t : Ty) : Prop := t.every false isNotLiteral = true

theorem onLeaves_isNotLiteral : OnLeaves isNotLiteral := by
  intro t
  cases t <;> simp [isNotLiteral]

theorem widen_of_literalFree {t : Ty} (wf : t.WellFormed) (h : t.LiteralFree) : widen t = t := by
  induction t using induct with
  | literal s => simp [LiteralFree, every, isNotLiteral] at h
  | oneOf ms ih =>
    obtain ⟨⟨hl, hr⟩, hw⟩ := wellFormed_oneOf.mp wf
    rw [widen, widenAll_eq_map, List.map_congr_left (fun m hm => ih m hm (hw m hm) (every_inside h rfl hm)),
      List.map_id', union_of_reduced hl hr]
  | object fs ih =>
    have hw := (wellFormed_object.mp wf).2
    have hf : ∀ f ∈ fs, (f.1, widen f.2) = f := fun f hf => by
      rw [ih f hf (hw f hf) (every_inside h rfl (List.mem_map_of_mem hf))]
    rw [widen, widenFields_eq_map, List.map_congr_left hf, List.map_id']
  | array e ih => rw [widen, ih (wellFormed_array.mp wf) (every_inside h rfl (by simp [children]))]
  | tuple es ih =>
    have hw := wellFormed_tuple.mp wf
    rw [widen, widenAll_eq_map, List.map_congr_left (fun e he => ih e he (hw e he) (every_inside h rfl he)),
      List.map_id']
  | _ => rfl

def isNumberOrOther : Ty → Bool
  | .literal s => !s.isNaN
  | _ => true

def NanFree (t : Ty) : Prop := t.every true isNumberOrOther = true

instance (t : Ty) : Decidable t.NanFree := inferInstanceAs (Decidable (_ = true))

theorem same_self_iff {t : Ty} :
    same t t = true ↔ (∀ s, t = .literal s → s.same s = true) ∧ ∀ c ∈ t.children, same c c = true := by
  cases t with
  | literal s => simp [same, children]
  | oneOf ms =>
    have hmembers : same (.oneOf ms) (.oneOf ms) = true ↔ ∀ m ∈ ms, same m m = true := by
      constructor
      · intro h m hm
        obtain ⟨_, _, hl, _⟩ := same_oneOf_left.mp h
        obtain ⟨n, _, hmn⟩ := hl m hm
        exact same_trans hmn (same_symm hmn)
      · exact fun h => same_oneOf_left.mpr ⟨ms, rfl, fun m hm => ⟨m, hm, h m hm⟩, fun m hm => ⟨m, hm, h m hm⟩⟩
    simp [hmembers, children]
  | object fs =>
    simp only [same_object_left, children, List.forall_mem_map, object.injEq, exists_eq_left', List.forall₂_same,
      true_and, reduceCtorEq, false_implies, implies_true]
  | array e => simp [same_array_left, children]
  | tuple es => simp [same_tuple_left, children, List.forall₂_same]
  | function ps r => simp [same_function_left, children, List.forall₂_same, and_comm]
  | _ => simp [same, children]

theorem same_self_of_children {t : Ty} (ht : isNotLiteral t = true) (h : ∀ c ∈ t.children, same c c = true) :
    same t t = true := by
  refine same_self_iff.mpr ⟨?_, h⟩
  rintro s rfl
  cases ht

theorem same_self {t : Ty} (h : t.NanFree) : same t t = true := by
  induction t using ofChildren with
  | step t ih =>
    refine same_self_iff.mpr ⟨?_, fun c hc => ih c hc (every_child h hc)⟩
    rintro s rfl
    exact Scalar.same_self (by simpa [NanFree, every, isNumberOrOther] using h)

theorem onLeaves_isNumberOrOther : OnLeaves isNumberOrOther := by
  intro t
  cases t <;> simp [isNumberOrOther]

structure Proper (t : Ty) : Prop where
  wellFormed : t.WellFormed
  nanFree : t.NanFree

theorem Proper.self {t : Ty} (h : t.Proper) : same t t = true := same_self h.nanFree

theorem Proper.child {t c : Ty} (h : t.Proper) (hc : c ∈ t.children) : c.Proper :=
  ⟨every_child h.wellFormed hc, every_child h.nanFree hc⟩

theorem Proper.member {t m : Ty} (h : t.Proper) (hm : m ∈ t.members) : m.Proper :=
  ⟨every_members h.wellFormed hm, every_members h.nanFree hm⟩

theorem proper_undefined : undefined.Proper := ⟨rfl, rfl⟩

end Casewise.Ty
