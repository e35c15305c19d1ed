import Casewise.Proofs.Bindings
import Casewise.Ty.Basic
import Mathlib.Data.Rat.Cast.Defs

namespace Casewise

theorem Exact.same_iff (x y : Exact) : x.same y = true ↔ x = y ∧ x ≠ .nan := by
  cases x <;> cases y <;> simp [Exact.same]

namespace Number

theorem same_iff (a b : Number) : a.same b = true ↔
    (∃ m, a = .nan (some m) ∧ b = .nan (some m)) ∨ (a.exact = b.exact ∧ a.exact ≠ .nan) := by
  cases a with
  | int m => cases b <;> simp [same, equal, exact, Exact.same_iff]
  | float x => cases b <;> simp [same, equal, exact, Exact.same_iff]
  | nan j =>
    cases b with
    | int n => simp [same, equal, exact, Exact.same_iff]
    | float y => simp [same, equal, exact, Exact.same_iff]
    | nan k =>
      cases j <;> cases k <;> simp [same, equal, exact, Exact.same_iff]
      exact eq_comm

theorem same_symm {a b : Number} (h : a.same b = true) : b.same a = true := by
  rw [same_iff] at h ⊢
  rcases h with ⟨m, ha, hb⟩ | ⟨he, hn⟩
  · exact .inl ⟨m, hb, ha⟩
  · exact .inr ⟨he.symm, he ▸ hn⟩

theorem same_trans {a b c : Number} (hab : a.same b = true) (hbc : b.same c = true) : a.same c = true := by
  rw [same_iff] at hab hbc ⊢
  rcases hab with ⟨m, ha, hb⟩ | ⟨he, hn⟩ <;> rcases hbc with ⟨m', hb', hc⟩ | ⟨he', hn'⟩
  · exact .inl ⟨m', by rw [ha, ← hb, hb'], hc⟩
  · exact absurd (by rw [hb]; rfl) hn'
  · exact absurd (by rw [he, hb']; rfl) hn
  · exact .inr ⟨he.trans he', hn⟩

theorem same_self {a : Number} (h : a.isNaN = false) : a.same a = true := by
  have he : a.exact ≠ .nan := by simpa [isNaN] using h
  cases a with
  | int n => simp [same, equal]
  | float x => exact (Exact.same_iff _ _).mpr ⟨rfl, he⟩
  | nan m => exact absurd rfl he

end Number

namespace Scalar

def isNaN : Scalar → Bool
  | .number n => n.isNaN
  | _ => false

theorem same_self {a : Scalar} (h : a.isNaN = false) : a.same a = true := by
  cases a with
  | number n => exact Number.same_self h
  | string s => simp [same]
  | boolean b => simp [same]

theorem same_symm {a b : Scalar} (h : a.same b = true) : b.same a = true := by
  cases a <;> cases b <;> simp_all [same, Number.same_symm]

theorem same_trans {a b c : Scalar} (hab : a.same b = true) (hbc : b.same c = true) : a.same c = true := by
  cases a <;> cases b <;> cases c <;> simp_all [same]
  exact Number.same_trans hab hbc

theorem primitive_of_same {a b : Scalar} (h : a.same b = true) : a.primitive = b.primitive := by
  cases a <;> cases b <;> simp_all [same, primitive]

end Scalar

namespace Ty

def children : Ty → List Ty
  | .oneOf ms => ms
  | .object fs => fs.map (·.2)
  | .array e => [e]
  | .tuple es => es
  | .function ps r => r :: ps
  | _ => []

theorem sizeOf_children {t c : Ty} (h : c ∈ t.children) : sizeOf c < sizeOf t := by
  cases t with
  | oneOf ms =>
    have : sizeOf c < sizeOf ms := List.sizeOf_lt_of_mem h
    simp; omega
  | object fs =>
    obtain ⟨f, hf, rfl⟩ := List.mem_map.mp h
    have := List.sizeOf_lt_of_mem hf
    have : sizeOf f = 1 + sizeOf f.1 + sizeOf f.2 := rfl
    simp; omega
  | array e =>
    obtain rfl := List.mem_singleton.mp h
    simp
  | tuple es =>
    have : sizeOf c < sizeOf es := List.sizeOf_lt_of_mem h
    simp; omega
  | function ps r =>
    rcases List.mem_cons.mp h with rfl | h
    · simp
    · have := List.sizeOf_lt_of_mem h
      simp; omega
  | _ => simp [children] at h

theorem ofChildren {P : Ty → Prop} (step : ∀ t, (∀ c ∈ t.children, P c) → P t) (t : Ty) : P t :=
  step t fun c hc =>
    have := sizeOf_children hc
    ofChildren step c
termination_by sizeOf t

@[elab_as_elim]
theorem induct {P : Ty → Prop} (primitive : ∀ p, P (.primitive p)) (literal : ∀ s, P (.literal s))
    (oneOf : ∀ ms, (∀ m ∈ ms, P m) → P (.oneOf ms)) (object : ∀ fs, (∀ f ∈ fs, P f.2) → P (.object fs))
    (array : ∀ e, P e → P (.array e)) (tuple : ∀ es, (∀ e ∈ es, P e) → P (.tuple es))
    (function : ∀ ps r, (∀ p ∈ ps, P p) → P r → P (.function ps r)) (unknown : P .unknown)
    (never : P .never) (throws : ∀ e, P (.throws e)) (t : Ty) : P t := by
  induction t using ofChildren with
  | step t ih =>
    cases t with
    | primitive p => exact primitive p
    | literal s => exact literal s
    | oneOf ms => exact oneOf ms ih
    | object fs => exact object fs fun f hf => ih f.2 (List.mem_map_of_mem hf)
    | array e => exact array e (ih e (by simp [children]))
    | tuple es => exact tuple es ih
    | function ps r =>
      exact function ps r (fun p hp => ih p (by simp [children, hp])) (ih r (by simp [children]))
    | unknown => exact unknown
    | never => exact never
    | throws e => exact throws e

theorem sameAll_iff (xs ys : List Ty) : sameAll xs ys = true ↔ List.Forall₂ (fun x y => same x y = true) xs ys := by
  induction xs generalizing ys with
  | nil => cases ys <;> simp [sameAll]
  | cons x xs ih => cases ys <;> simp [sameAll, ih]

theorem sameFields_iff (fs gs : List (String × Ty)) :
    sameFields fs gs = true ↔ List.Forall₂ (fun f g => f.1 = g.1 ∧ same f.2 g.2 = true) fs gs := by
  induction fs generalizing gs with
  | nil => cases gs <;> simp [sameFields]
  | cons f fs ih => cases gs <;> simp [sameFields, ih]

def Like (xs ys : List Ty) : Prop :=
  (∀ x ∈ xs, ∃ y ∈ ys, same x y = true) ∧ ∀ y ∈ ys, ∃ x ∈ xs, same x y = true

theorem sameSet_iff (xs ys : List Ty) (met : Ty → Bool) :
    sameSet xs ys (ys.map met) = true ↔
      (∀ x ∈ xs, ∃ y ∈ ys, same x y = true) ∧ ∀ y ∈ ys, met y = true ∨ ∃ x ∈ xs, same x y = true := by
  induction xs generalizing met with
  | nil => simp [sameSet]
  | cons x xs ih =>
    have hrow : List.zipWith or (ys.map met) (ys.map fun y => same x y) =
        ys.map fun y => met y || same x y := by
      simp [List.zipWith_map]
    simp only [sameSet, hrow, Bool.and_eq_true, ih, List.any_map, List.any_eq_true, Function.comp_apply, id_eq,
      Bool.or_eq_true, List.forall_mem_cons, List.exists_mem_cons_iff, or_assoc, and_assoc]

section

variable {b : Ty}

@[simp] theorem same_primitive_left {p : Primitive} : same (.primitive p) b = true ↔ b = .primitive p := by
  cases b with
  | primitive q => exact beq_iff_eq.trans ⟨fun h => h ▸ rfl, fun h => (Ty.primitive.inj h).symm⟩
  | _ => exact iff_of_false Bool.false_ne_true nofun

@[simp] theorem same_unknown_left : same .unknown b = true ↔ b = .unknown := by
  cases b with
  | unknown => exact iff_of_true rfl rfl
  | _ => exact iff_of_false Bool.false_ne_true nofun

@[simp] theorem same_never_left : same .never b = true ↔ b = .never := by
  cases b with
  | never => exact iff_of_true rfl rfl
  | _ => exact iff_of_false Bool.false_ne_true nofun

@[simp] theorem same_throws_left {e : Option String} : same (.throws e) b = true ↔ b = .throws e := by
  cases b with
  | throws f => exact beq_iff_eq.trans ⟨fun h => h ▸ rfl, fun h => (Ty.throws.inj h).symm⟩
  | _ => exact iff_of_false Bool.false_ne_true nofun

theorem same_literal_left {s : Scalar} : same (.literal s) b = true ↔ ∃ s', b = .literal s' ∧ s.same s' = true := by
  cases b with
  | literal t => exact ⟨fun h => ⟨t, rfl, h⟩, fun ⟨_, he, h⟩ => Ty.literal.inj he ▸ h⟩
  | _ => exact iff_of_false Bool.false_ne_true (by simp)

theorem same_oneOf_left {xs : List Ty} : same (.oneOf xs) b = true ↔ ∃ ys, b = .oneOf ys ∧ Like xs ys := by
  cases b with
  | oneOf ys =>
    have h : same (.oneOf xs) (.oneOf ys) = true ↔ Like xs ys := by
      refine (sameSet_iff xs ys fun _ => false).trans ?_
      simp [Like]
    exact ⟨fun hs => ⟨ys, rfl, h.mp hs⟩, fun ⟨_, he, hl⟩ => h.mpr (Ty.oneOf.inj he ▸ hl)⟩
  | _ => exact iff_of_false Bool.false_ne_true (by simp)

theorem same_object_left {fs : List (String × Ty)} : same (.object fs) b = true ↔
    ∃ gs, b = .object gs ∧ List.Forall₂ (fun f g => f.1 = g.1 ∧ same f.2 g.2 = true) fs gs := by
  cases b with
  | object gs =>
    have h := sameFields_iff fs gs
    exact ⟨fun hs => ⟨gs, rfl, h.mp hs⟩, fun ⟨_, he, hf⟩ => h.mpr (Ty.object.inj he ▸ hf)⟩
  | _ => exact iff_of_false Bool.false_ne_true (by simp)

theorem same_array_left {a : Ty} : same (.array a) b = true ↔ ∃ c, b = .array c ∧ same a c = true := by
  cases b with
  | array c => exact ⟨fun h => ⟨c, rfl, h⟩, fun ⟨_, he, h⟩ => Ty.array.inj he ▸ h⟩
  | _ => exact iff_of_false Bool.false_ne_true (by simp)

theorem same_tuple_left {xs : List Ty} : same (.tuple xs) b = true ↔
    ∃ ys, b = .tuple ys ∧ List.Forall₂ (fun x y => same x y = true) xs ys := by
  cases b with
  | tuple ys =>
    have h := sameAll_iff xs ys
    exact ⟨fun hs => ⟨ys, rfl, h.mp hs⟩, fun ⟨_, he, hf⟩ => h.mpr (Ty.tuple.inj he ▸ hf)⟩
  | _ => exact iff_of_false Bool.false_ne_true (by simp)

theorem same_function_left {ps : List Ty} {r : Ty} : same (.function ps r) b = true ↔
    ∃ qs s, b = .function qs s ∧ List.Forall₂ (fun p q => same p q = true) ps qs ∧ same r s = true := by
  cases b with
  | function qs s =>
    have h : same (.function ps r) (.function qs s) = true ↔
        List.Forall₂ (fun p q => same p q = true) ps qs ∧ same r s = true := by
      rw [← sameAll_iff]
      exact Bool.and_eq_true_iff
    simp [h]
  | _ => exact iff_of_false Bool.false_ne_true (by simp)

end

theorem same_symm {a b : Ty} (h : same a b = true) : same b a = true := by
  induction a using induct generalizing b with
  | literal s =>
    obtain ⟨s', rfl, hs⟩ := same_literal_left.mp h
    exact same_literal_left.mpr ⟨s, rfl, Scalar.same_symm hs⟩
  | oneOf ms ih =>
    obtain ⟨ns, rfl, hl⟩ := same_oneOf_left.mp h
    refine same_oneOf_left.mpr ⟨ms, rfl, fun n hn => ?_, fun m hm => ?_⟩
    · obtain ⟨m, hm, hmn⟩ := hl.2 n hn
      exact ⟨m, hm, ih m hm hmn⟩
    · obtain ⟨n, hn, hmn⟩ := hl.1 m hm
      exact ⟨n, hn, ih m hm hmn⟩
  | object fs ih =>
    obtain ⟨gs, rfl, hf⟩ := same_object_left.mp h
    exact same_object_left.mpr ⟨fs, rfl, forall₂_swap hf fun f hf g hfg => ⟨hfg.1.symm, ih f hf hfg.2⟩⟩
  | array e ih =>
    obtain ⟨c, rfl, hc⟩ := same_array_left.mp h
    exact same_array_left.mpr ⟨e, rfl, ih hc⟩
  | tuple es ih =>
    obtain ⟨cs, rfl, hc⟩ := same_tuple_left.mp h
    exact same_tuple_left.mpr ⟨es, rfl, forall₂_swap hc fun e he _ => ih e he⟩
  | function ps r ihp ihr =>
    obtain ⟨qs, s, rfl, hp, hr⟩ := same_function_left.mp h
    exact same_function_left.mpr ⟨ps, r, rfl, forall₂_swap hp fun p hp _ => ihp p hp, ihr hr⟩
  | _ => simp_all

theorem same_trans {a b c : Ty} (hab : same a b = true) (hbc : same b c = true) : same a c = true := by
  induction a using induct generalizing b c with
  | literal s =>
    obtain ⟨s', rfl, hs⟩ := same_literal_left.mp hab
    obtain ⟨s'', rfl, hs'⟩ := same_literal_left.mp hbc
    exact same_literal_left.mpr ⟨s'', rfl, Scalar.same_trans hs hs'⟩
  | oneOf ms ih =>
    obtain ⟨ns, rfl, hn⟩ := same_oneOf_left.mp hab
    obtain ⟨ks, rfl, hk⟩ := same_oneOf_left.mp hbc
    refine same_oneOf_left.mpr ⟨ks, rfl, fun m hm => ?_, fun k hk' => ?_⟩
    · obtain ⟨n, hn', hmn⟩ := hn.1 m hm
      obtain ⟨k, hk', hnk⟩ := hk.1 n hn'
      exact ⟨k, hk', ih m hm hmn hnk⟩
    · obtain ⟨n, hn', hnk⟩ := hk.2 k hk'
      obtain ⟨m, hm, hmn⟩ := hn.2 n hn'
      exact ⟨m, hm, ih m hm hmn hnk⟩
  | object fs ih =>
    obtain ⟨gs, rfl, hg⟩ := same_object_left.mp hab
    obtain ⟨ks, rfl, hk⟩ := same_object_left.mp hbc
    exact same_object_left.mpr ⟨ks, rfl,
      forall₂_comp hg hk fun f hf g k hfg hgk => ⟨hfg.1.trans hgk.1, ih f hf hfg.2 hgk.2⟩⟩
  | array e ih =>
    obtain ⟨e', rfl, he⟩ := same_array_left.mp hab
    obtain ⟨e'', rfl, he'⟩ := same_array_left.mp hbc
    exact same_array_left.mpr ⟨e'', rfl, ih he he'⟩
  | tuple es ih =>
    obtain ⟨es', rfl, he⟩ := same_tuple_left.mp hab
    obtain ⟨es'', rfl, he'⟩ := same_tuple_left.mp hbc
    exact same_tuple_left.mpr ⟨es'', rfl, forall₂_comp he he' fun e he _ _ => ih e he⟩
  | function ps r ihp ihr =>
    obtain ⟨ps', r', rfl, hp, hr⟩ := same_function_left.mp hab
    obtain ⟨ps'', r'', rfl, hp', hr'⟩ := same_function_left.mp hbc
    exact same_function_left.mpr ⟨ps'', r'', rfl, forall₂_comp hp hp' fun p hp _ _ => ihp p hp, ihr hr hr'⟩
  | _ => simp_all

theorem get?_of_same {fs gs : List (String × Ty)} (key : String)
    (h : List.Forall₂ (fun f g => f.1 = g.1 ∧ same f.2 g.2 = true) fs gs) :
    (Bindings.get? key fs = none ∧ Bindings.get? key gs = none) ∨
      ∃ t u, Bindings.get? key fs = some t ∧ Bindings.get? key gs = some u ∧ same t u = true := by
  induction h with
  | nil => exact .inl ⟨rfl, rfl⟩
  | @cons f g _ _ hfg _ ih =>
    by_cases hk : f.1 = key
    · have hk' : g.1 = key := hfg.1 ▸ hk
      exact .inr ⟨f.2, g.2, by simp [Bindings.get?, hk], by simp [Bindings.get?, hk'], hfg.2⟩
    · have hk' : g.1 ≠ key := hfg.1 ▸ hk
      simpa only [Bindings.get?, hk, hk', if_false] using ih

namespace Like

variable {xs ys zs : List Ty}

theorem trans (h : Like xs ys) (h' : Like ys zs) : Like xs zs := by
  have ht := same_trans (same_oneOf_left.mpr ⟨ys, rfl, h⟩) (same_oneOf_left.mpr ⟨zs, rfl, h'⟩)
  obtain ⟨_, he, hs⟩ := same_oneOf_left.mp ht
  exact Ty.oneOf.inj he ▸ hs

theorem append {xs' ys' : List Ty} (h : Like xs ys) (h' : Like xs' ys') : Like (xs ++ xs') (ys ++ ys') := by
  refine ⟨fun x hx => ?_, fun y hy => ?_⟩
  · rcases List.mem_append.mp hx with hx | hx
    · obtain ⟨y, hy, hxy⟩ := h.1 x hx
      exact ⟨y, List.mem_append_left _ hy, hxy⟩
    · obtain ⟨y, hy, hxy⟩ := h'.1 x hx
      exact ⟨y, List.mem_append_right _ hy, hxy⟩
  · rcases List.mem_append.mp hy with hy | hy
    · obtain ⟨x, hx, hxy⟩ := h.2 y hy
      exact ⟨x, List.mem_append_left _ hx, hxy⟩
    · obtain ⟨x, hx, hxy⟩ := h'.2 y hy
      exact ⟨x, List.mem_append_right _ hx, hxy⟩

end Like

end Ty

end Casewise
