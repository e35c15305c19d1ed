import Casewise.Proofs.Symbolic.Closed
import Casewise.Proofs.TypeSplits
import Casewise.Proofs.Widening

namespace Casewise.Ty

variable {a a' b b' c l r t : Ty} {ts us : List Ty}

structure WidensTo (a b : Ty) : Prop where
  plain : isAlternative a = true
  source : a.WellFormed
  target : b.WellFormed
  same : same (widen a) b = true

theorem same_widen_union_of_like (ht : ∀ t ∈ ts, t.WellFormed) (hu : ∀ u ∈ us, u.WellFormed)
    (h : Like (ts.map widen) us) : same (widen (union ts)) (union us) = true := by
  have hw : ∀ t ∈ ts, t.Widens := by
    intro t hm
    obtain ⟨u, _, htu⟩ := h.1 _ (List.mem_map_of_mem hm)
    exact ⟨ht t hm, same_self_left htu⟩
  have hr : ∀ u ∈ us, u.Regular := by
    intro u hm
    obtain ⟨x, _, hxu⟩ := h.2 u hm
    exact ⟨hu u hm, same_self_right hxu⟩
  refine same_trans (same_widen_union hw) (same_union_of_like ?_ hr h)
  exact List.forall_mem_map.mpr fun t hm => (hw t hm).regular

theorem like_of_forall₂ (h : List.Forall₂ (fun x y => same x y = true) ts us) : Like ts us := by
  induction h with
  | nil => simp [Like]
  | cons hxy _ ih => exact (like_single hxy).append ih

theorem isAlternative_of_same (h : same a b = true) : isAlternative a = isAlternative b := by
  cases a <;> cases b <;> first | rfl | cases h

theorem kind_of_same (h : same a b = true) : a.kind = b.kind := by
  cases a <;> cases b <;> first | rfl | cases h | skip
  · rw [same_primitive_left.mp h]
  · obtain ⟨s, hs, he⟩ := same_literal_left.mp h
    rw [hs, kind, kind, Scalar.primitive_of_same he]

theorem eq_sequence_of_kind (h : a.kind = .array) : (∃ e, a = .array e) ∨ ∃ es, a = .tuple es := by
  cases a with
  | array e => exact .inl ⟨e, rfl⟩
  | tuple es => exact .inr ⟨es, rfl⟩
  | primitive p => cases p <;> cases h
  | literal s => cases s <;> cases h
  | _ => cases h

theorem concatenated_of_kinds (h : ¬ (l.kind = .array ∧ r.kind = .array)) :
    concatenated l r = if l.kind == .string && r.kind == .string then some string else none := by
  cases l <;> cases r <;> first | rfl | exact absurd ⟨rfl, rfl⟩ h

namespace WidensTo

variable (ha : WidensTo a a') (hb : WidensTo b b')

include ha

theorem target_plain : isAlternative a' = true := by
  rw [← isAlternative_of_same ha.same]
  exact isAlternative_widen ha.plain

theorem kind_eq : a'.kind = a.kind := by
  rw [← kind_of_same ha.same]
  obtain ⟨hp, _, _, _⟩ := ha
  cases a with
  | oneOf ms => simp [isAlternative] at hp
  | _ => rfl

theorem not_literal (s : Scalar) : a' ≠ .literal s := by
  rintro rfl
  obtain ⟨s', hs, _⟩ := same_literal_left.mp (same_symm ha.same)
  obtain ⟨hp, _, _, _⟩ := ha
  cases a <;> simp [isAlternative, widen] at hp hs

theorem repeated : Ty.same (widen a.repeated) a'.repeated = true := by
  obtain ⟨hp, hw, hw', hs⟩ := ha
  cases a with
  | tuple es =>
    rw [inward_widen.tuple] at hs
    obtain ⟨es', rfl, he⟩ := same_tuple_left.mp hs
    have hunion := same_widen_union_of_like (wellFormed_tuple.mp hw) (wellFormed_tuple.mp hw') (like_of_forall₂ he)
    exact same_array_left.mpr ⟨_, rfl, hunion⟩
  | oneOf ms => simp [isAlternative] at hp
  | _ =>
    have hrepeated : a'.repeated = a' := by
      cases a' <;> simp_all [Ty.repeated, widen, Ty.same]
    rwa [hrepeated]

include hb

theorem concatenated : Agree ((concatenated a b).map widen) (concatenated a' b') := by
  by_cases hk : a.kind = .array ∧ b.kind = .array
  · -- only a sequence may be joined with its like
    obtain ⟨_, hwa, hwa', hsa⟩ := ha
    obtain ⟨_, hwb, hwb', hsb⟩ := hb
    rcases eq_sequence_of_kind hk.1 with ⟨d, rfl⟩ | ⟨ds, rfl⟩ <;>
      rcases eq_sequence_of_kind hk.2 with ⟨e, rfl⟩ | ⟨es, rfl⟩
    · obtain ⟨d', rfl, hd⟩ := same_array_left.mp hsa
      obtain ⟨e', rfl, he⟩ := same_array_left.mp hsb
      refine .some (same_array_left.mpr ⟨_, rfl, same_widen_union_of_like ?_ ?_ ?_⟩)
      · simpa using ⟨wellFormed_array.mp hwa, wellFormed_array.mp hwb⟩
      · simpa using ⟨wellFormed_array.mp hwa', wellFormed_array.mp hwb'⟩
      · exact (like_single hd).append (like_single he)
    · rw [inward_widen.tuple] at hsb
      obtain ⟨d', rfl, _⟩ := same_array_left.mp hsa
      obtain ⟨es', rfl, _⟩ := same_tuple_left.mp hsb
      exact .none
    · rw [inward_widen.tuple] at hsa
      obtain ⟨ds', rfl, _⟩ := same_tuple_left.mp hsa
      obtain ⟨e', rfl, _⟩ := same_array_left.mp hsb
      exact .none
    · rw [inward_widen.tuple] at hsa hsb
      obtain ⟨ds', rfl, hd⟩ := same_tuple_left.mp hsa
      obtain ⟨es', rfl, he⟩ := same_tuple_left.mp hsb
      refine .some ?_
      rw [inward_widen.tuple, List.map_append]
      exact same_tuple_left.mpr ⟨_, rfl, List.rel_append hd he⟩
  · rw [concatenated_of_kinds hk, concatenated_of_kinds (by rwa [ha.kind_eq, hb.kind_eq]), ha.kind_eq, hb.kind_eq]
    split
    · exact .some rfl
    · exact .none

theorem multiplied : Agree ((multiplied a b).map widen) (multiplied a' b') := by
  unfold Ty.multiplied
  rw [ha.kind_eq, hb.kind_eq]
  split
  · exact .some rfl
  · split
    · exact .some ha.repeated
    · split
      · exact .some hb.repeated
      · exact .none

theorem kindResult (op : BinaryOp) : Agree ((kindResult op a b).map widen) (kindResult op a' b') := by
  unfold Ty.kindResult
  rw [ha.kind_eq, hb.kind_eq]
  split
  · split <;> exact .some rfl
  · split
    · exact ha.concatenated hb
    · exact ha.multiplied hb
    · split
      · exact .some rfl
      · exact .none
    · exact .none

end WidensTo

theorem primitive_of_foldNumbers {op : Number → Number → Option Number} {x y s : Scalar}
    (h : Scalar.foldNumbers op x y = some s) : s.primitive = .number := by
  simp only [Scalar.foldNumbers, Option.bind_eq_bind, Option.bind_eq_some_iff, Option.pure_def, Option.some.injEq] at h
  obtain ⟨_, _, _, _, n, _, rfl⟩ := h
  rfl

theorem primitive_of_foldShift {op : Int → Int → Option Int} {x y s : Scalar}
    (h : Scalar.foldShift op x y = some s) : s.primitive = .number := by
  simp only [Scalar.foldShift, Option.bind_eq_bind, Option.bind_eq_some_iff, Option.pure_def, Option.some.injEq] at h
  obtain ⟨_, _, _, _, n, _, rfl⟩ := h
  rfl

theorem primitive_of_foldBits {onBool : Bool → Bool → Bool} {onInt : Int → Int → Int} {x y s : Scalar}
    (h : Scalar.foldBits onBool onInt x y = some s) :
    s.primitive = if x.primitive = .boolean ∧ y.primitive = .boolean then .boolean else .number := by
  cases x <;> cases y <;>
    simp only [Scalar.foldBits, Option.bind_eq_bind, Option.bind_eq_some_iff, Option.pure_def, Option.some.injEq] at h
  case boolean.boolean =>
    rw [← h]
    rfl
  all_goals
    obtain ⟨_, _, _, _, rfl⟩ := h
    rfl

theorem primitive_of_repeated {text : String} {y s : Scalar}
    (h : (do return .string (← Scalar.repeated text (← y.int?)) : Option Scalar) = some s) : s.primitive = .string := by
  simp only [Option.bind_eq_bind, Option.bind_eq_some_iff, Option.pure_def, Option.some.injEq] at h
  obtain ⟨_, _, _, _, rfl⟩ := h
  rfl

theorem kindResult_of_fold {op : BinaryOp} {x y s : Scalar} (hk : kindResult op (.literal x) (.literal y) = some t)
    (hs : Scalar.fold op x y = some s) : t = .primitive s.primitive := by
  have hof {q : Primitive} (hs : s.primitive = q) (hk : some (.primitive q) = some t) : t = .primitive s.primitive := by
    rw [hs]
    exact (Option.some.inj hk).symm
  have hformat {text : Option String} (hs : text.map Scalar.string = some s) : s.primitive = .string := by
    obtain ⟨_, _, rfl⟩ := Option.map_eq_some_iff.mp hs
    rfl
  have hbits {onBool : Bool → Bool → Bool} {onInt : Int → Int → Int}
      (he : Scalar.fold op x y = Scalar.foldBits onBool onInt x y) := primitive_of_foldBits (he.symm.trans hs)
  cases op
  case other => cases show none = some s from hs
  case bitAnd | bitOr | bitXor =>
    have hp := hbits rfl
    cases x <;> cases y <;>
      first
      | cases show none = some t from hk
      | exact hof hp hk
  all_goals
    cases x <;> cases y <;>
      first
      | cases show none = some t from hk
      | exact hof (primitive_of_foldNumbers hs) hk
      | exact hof (primitive_of_foldShift hs) hk
      | exact hof (primitive_of_repeated hs) hk
      | exact hof (hformat hs) hk
      | exact hof (Option.some.inj hs ▸ rfl) hk

def HasName (t : Ty) : Prop := (name? t).isSome = true

structure KeepsKinds (rule : Ty → Ty → Except Fault Ty) : Prop where
  wellFormed {a b c : Ty} : a.WellFormed → b.WellFormed → rule a b = .ok c → c.WellFormed
  result {a a' b b' c : Ty} :
    WidensTo a a' → WidensTo b b' → rule a b = .ok c → ∃ c', rule a' b' = .ok c' ∧ same (widen c) c' = true
  refusal {a a' b b' : Ty} {cause : TypeError} :
    WidensTo a a' → WidensTo b b' → rule a b = .error (.undefined cause) → ∃ f, rule a' b' = .error f
  unnamed {a b : Ty} :
    isAlternative a = true → isAlternative b = true → rule a b = .error .tooLong → ¬ (a.HasName ∧ b.HasName)
  room {a a' b : Ty} : WidensTo a a' → isAlternative b = true → rule a' b ≠ .error .outOfMemory

theorem mismatch_eq_error {symbol : String} {f : Fault} (h : (mismatch symbol l r : Except Fault Ty) = .error f) :
    (f = .tooLong ∧ ¬ (l.HasName ∧ r.HasName)) ∨ ((∃ cause, f = .undefined cause) ∧ l.HasName ∧ r.HasName) := by
  unfold mismatch name at h
  unfold HasName
  cases hl : name? l with
  | none =>
    rw [hl] at h
    exact .inl ⟨(Except.error.inj h).symm, by simp⟩
  | some x =>
    cases hr : name? r with
    | none =>
      rw [hl, hr] at h
      exact .inl ⟨(Except.error.inj h).symm, by simp⟩
    | some y =>
      rw [hl, hr] at h
      exact .inr ⟨⟨_, (Except.error.inj h).symm⟩, rfl, rfl⟩

theorem mismatch_fails (symbol : String) (l r : Ty) : ∃ f, (mismatch symbol l r : Except Fault Ty) = .error f := by
  unfold mismatch name
  cases name? l <;> cases name? r <;> exact ⟨_, rfl⟩

theorem known_of_plain (h : isAlternative a = true) : a.isUnknown = false ∧ a.isNever = false := by
  cases a <;> first | exact ⟨rfl, rfl⟩ | cases h

section

variable {op : BinaryOp} (ha : isAlternative a = true) (hb : isAlternative b = true)

include ha hb

theorem binarySingle_of_none (h : kindResult op a b = none) : binarySingle op a b = mismatch op.symbol a b := by
  unfold binarySingle
  rw [(known_of_plain ha).1, (known_of_plain ha).2, (known_of_plain hb).1, (known_of_plain hb).2, h]
  rfl

theorem binarySingle_of_some (h : kindResult op a b = some t) :
    binarySingle op a b = (folded op a b).map (·.getD t) := by
  unfold binarySingle
  rw [(known_of_plain ha).1, (known_of_plain ha).2, (known_of_plain hb).1, (known_of_plain hb).2, h]
  cases folded op a b <;> rfl

end

theorem folded_cases (op : BinaryOp) (a b : Ty) :
    folded op a b = .ok none ∨
    (∃ x y s, a = .literal x ∧ b = .literal y ∧ Scalar.fold op x y = some s ∧ folded op a b = .ok (some (.literal s))) ∨
    (∃ x y, a = .literal x ∧ b = .literal y ∧ Scalar.outgrows op x y = true ∧ folded op a b = .error .outOfMemory) := by
  unfold folded
  split
  · next x y =>
    split
    · exact .inl rfl
    · split
      · next hout => exact .inr (.inr ⟨x, y, rfl, rfl, hout, rfl⟩)
      · cases hs : Scalar.fold op x y with
        | none => exact .inl rfl
        | some s => exact .inr (.inl ⟨x, y, s, rfl, rfl, hs, rfl⟩)
  · exact .inl rfl

theorem WidensTo.folded (ha : WidensTo a a') (op : BinaryOp) : folded op a' b' = .ok none := by
  obtain h | ⟨x, _, _, hx, _⟩ | ⟨x, _, hx, _⟩ := folded_cases op a' b'
  · exact h
  · exact absurd hx (ha.not_literal x)
  · exact absurd hx (ha.not_literal x)

theorem WidensTo.binarySingle_result {op : BinaryOp} (ha : WidensTo a a') (hb : WidensTo b b')
    (h : binarySingle op a b = .ok c) : ∃ c', binarySingle op a' b' = .ok c' ∧ Ty.same (widen c) c' = true := by
  have hk := ha.kindResult hb op
  cases ht : Ty.kindResult op a b with
  | none =>
    rw [binarySingle_of_none ha.plain hb.plain ht] at h
    obtain ⟨f, hf⟩ := mismatch_fails op.symbol a b
    rw [hf] at h
    cases h
  | some t =>
    rw [ht] at hk
    obtain ⟨t', ht', hs⟩ : ∃ t', Ty.kindResult op a' b' = some t' ∧ Ty.same (widen t) t' = true := by
      generalize Ty.kindResult op a' b' = o at hk
      cases hk with
      | some hs => exact ⟨_, rfl, hs⟩
    refine ⟨t', ?_, ?_⟩
    · rw [binarySingle_of_some ha.target_plain hb.target_plain ht', ha.folded]
      rfl
    · rw [binarySingle_of_some ha.plain hb.plain ht] at h
      obtain hf | ⟨x, y, s, rfl, rfl, hfold, hf⟩ | ⟨_, _, _, _, _, hf⟩ := folded_cases op a b
      · rw [hf] at h
        obtain rfl := Except.ok.inj h
        exact hs
      · rw [hf] at h
        obtain rfl := Except.ok.inj h
        rw [kindResult_of_fold ht hfold] at hs
        exact hs
      · rw [hf] at h
        cases h

theorem binarySingle_eq_error {op : BinaryOp} {f : Fault} (ha : isAlternative a = true) (hb : isAlternative b = true)
    (h : binarySingle op a b = .error f) :
    (kindResult op a b = none ∧ (mismatch op.symbol a b : Except Fault Ty) = .error f) ∨
      (f = .outOfMemory ∧ ∃ x y, a = .literal x ∧ b = .literal y ∧ Scalar.outgrows op x y = true) := by
  cases ht : kindResult op a b with
  | none =>
    rw [binarySingle_of_none ha hb ht] at h
    exact .inl ⟨rfl, h⟩
  | some t =>
    rw [binarySingle_of_some ha hb ht] at h
    obtain hf | ⟨_, _, _, _, _, _, hf⟩ | ⟨x, y, hx, hy, hout, hf⟩ := folded_cases op a b
    · rw [hf] at h
      cases h
    · rw [hf] at h
      cases h
    · rw [hf] at h
      exact .inr ⟨(Except.error.inj h).symm, x, y, hx, hy, hout⟩

theorem keepsKinds_binarySingle (op : BinaryOp) : KeepsKinds (binarySingle op) where
  wellFormed ha hb h := permissive_wellFormed.binarySingle op ha hb _ h
  result ha hb h := ha.binarySingle_result hb h
  refusal {a a' b b' cause} ha hb h := by
    obtain ⟨hk, _⟩ | ⟨hf, _⟩ := binarySingle_eq_error ha.plain hb.plain h
    · have hk' := ha.kindResult hb op
      rw [hk] at hk'
      rw [binarySingle_of_none ha.target_plain hb.target_plain]
      · exact mismatch_fails _ _ _
      · cases hr : Ty.kindResult op a' b' with
        | none => rfl
        | some t => rw [hr] at hk'; cases hk'
    · cases hf
  unnamed ha hb h := by
    obtain ⟨_, hm⟩ | ⟨hf, _⟩ := binarySingle_eq_error ha hb h
    · obtain ⟨_, hn⟩ | ⟨⟨_, hf⟩, _⟩ := mismatch_eq_error hm
      · exact hn
      · cases hf
    · cases hf
  room ha hb h := by
    obtain ⟨_, hm⟩ | ⟨_, x, _, hx, _⟩ := binarySingle_eq_error ha.target_plain hb h
    · obtain ⟨hf, _⟩ | ⟨⟨_, hf⟩, _⟩ := mismatch_eq_error hm <;> cases hf
    · exact ha.not_literal x hx

theorem widen_comparedTo (op : CompareOp) (a b : Ty) : widen (comparedTo op a b) = boolean := by
  unfold comparedTo
  split
  · next x y => cases Scalar.foldCompare op x y <;> rfl
  · rfl

theorem widen_contained (negated : Bool) (a b : Ty) : widen (contained negated a b) = boolean := by
  unfold contained
  split <;> rfl

section

variable (h : ∀ s, a ≠ .literal s)

include h

theorem comparedTo_of_not_literal (op : CompareOp) : comparedTo op a b = boolean := by
  cases a with
  | literal s => exact absurd rfl (h s)
  | _ => rfl

theorem contained_of_not_literal (negated : Bool) : contained negated a b = boolean := by
  cases a with
  | literal s => exact absurd rfl (h s)
  | _ => rfl

end

def admits (op : CompareOp) (l r : OperandKind) : Bool :=
  match op with
  | .eq | .ne | .is | .isNot => true
  | .isIn | .notIn => r.isContainer && (r != .string || l == .string)
  | .other _ => false
  | _ => l.comparable r

def Compares (a : Ty) (x : Except Fault Ty) : Prop :=
  ∃ c, x = .ok c ∧ widen c = boolean ∧ ((∀ s, a ≠ .literal s) → c = boolean)

def Refuses (a b : Ty) (x : Except Fault Ty) : Prop :=
  ∃ f, x = .error f ∧ ((∃ cause, f = .undefined cause) ∨ f = .tooLong ∧ ¬ (a.HasName ∧ b.HasName))

theorem refuses_mismatch (symbol : String) (a b : Ty) : Refuses a b (mismatch symbol a b) := by
  obtain ⟨f, hf⟩ := mismatch_fails symbol a b
  refine ⟨f, hf, ?_⟩
  obtain hn | ⟨hc, _⟩ := mismatch_eq_error hf
  · exact .inr hn
  · exact .inl hc

theorem containment_spec (op : CompareOp) (negated : Bool) (a b : Ty) :
    if b.kind.isContainer && (b.kind != .string || a.kind == .string) then Compares a (containment op negated a b)
    else Refuses a b (containment op negated a b) := by
  have hcond : (b.kind != .string || a.kind == .string) = !(b.kind == .string && a.kind != .string) := by
    cases b.kind <;> cases a.kind <;> rfl
  unfold containment
  rw [hcond]
  cases b.kind == .string && a.kind != .string
  · cases b.kind.isContainer
    · unfold name
      cases hn : name? b with
      | none => exact ⟨_, rfl, .inr ⟨rfl, fun h => by simp [HasName, hn] at h⟩⟩
      | some x => exact ⟨_, rfl, .inl ⟨_, rfl⟩⟩
    · exact ⟨_, rfl, widen_contained negated a b, fun h => contained_of_not_literal h negated⟩
  · simpa using refuses_mismatch op.symbol a b

theorem compareSingle_spec (op : CompareOp) (ha : isAlternative a = true) (hb : isAlternative b = true) :
    if admits op a.kind b.kind then Compares a (compareSingle op a b) else Refuses a b (compareSingle op a b) := by
  unfold compareSingle
  rw [(known_of_plain ha).1, (known_of_plain ha).2, (known_of_plain hb).1, (known_of_plain hb).2]
  have hcompared (op : CompareOp) : Compares a (.ok (comparedTo op a b)) :=
    ⟨_, rfl, widen_comparedTo op a b, fun h => comparedTo_of_not_literal h op⟩
  have hboolean : Compares a (.ok boolean) := ⟨_, rfl, rfl, fun _ => rfl⟩
  cases op with
  | eq => exact hcompared .eq
  | ne => exact hcompared .ne
  | is => exact hboolean
  | isNot => exact hboolean
  | isIn => exact containment_spec .isIn false a b
  | notIn => exact containment_spec .notIn true a b
  | other symbol => exact ⟨_, rfl, .inl ⟨_, rfl⟩⟩
  | _ =>
    by_cases hk : a.kind.comparable b.kind = true
    · simpa [admits, hk] using hcompared _
    · simpa [admits, hk] using refuses_mismatch _ a b

section

variable {op : CompareOp} (ha : isAlternative a = true) (hb : isAlternative b = true)

include ha hb

theorem compareSingle_eq_ok (h : compareSingle op a b = .ok c) :
    admits op a.kind b.kind = true ∧ widen c = boolean ∧ ((∀ s, a ≠ .literal s) → c = boolean) := by
  have hspec := compareSingle_spec op ha hb
  rw [h] at hspec
  split at hspec
  · next hk =>
    obtain ⟨d, hd, hrest⟩ := hspec
    obtain rfl := Except.ok.inj hd
    exact ⟨hk, hrest⟩
  · obtain ⟨_, hf, _⟩ := hspec
    cases hf

theorem compareSingle_eq_error {f : Fault} (h : compareSingle op a b = .error f) :
    admits op a.kind b.kind = false ∧ ((∃ cause, f = .undefined cause) ∨ f = .tooLong ∧ ¬ (a.HasName ∧ b.HasName)) := by
  have hspec := compareSingle_spec op ha hb
  rw [h] at hspec
  split at hspec
  · obtain ⟨_, hc, _⟩ := hspec
    cases hc
  · next hk =>
    obtain ⟨g, hg, hrest⟩ := hspec
    obtain rfl := Except.error.inj hg
    exact ⟨by simpa using hk, hrest⟩

end

theorem keepsKinds_compareSingle (op : CompareOp) : KeepsKinds (compareSingle op) where
  wellFormed ha hb h := permissive_wellFormed.compareSingle op _ _ _ h
  result {a a' b b' c} ha hb h := by
    obtain ⟨hk, hw, _⟩ := compareSingle_eq_ok ha.plain hb.plain h
    cases h' : compareSingle op a' b' with
    | ok c' =>
      have hc := (compareSingle_eq_ok ha.target_plain hb.target_plain h').2.2 ha.not_literal
      exact ⟨c', rfl, by rw [hw, hc]; rfl⟩
    | error f =>
      have hk' := (compareSingle_eq_error ha.target_plain hb.target_plain h').1
      rw [ha.kind_eq, hb.kind_eq, hk] at hk'
      cases hk'
  refusal {a a' b b' cause} ha hb h := by
    have hk := (compareSingle_eq_error ha.plain hb.plain h).1
    cases h' : compareSingle op a' b' with
    | ok c' =>
      have hk' := (compareSingle_eq_ok ha.target_plain hb.target_plain h').1
      rw [ha.kind_eq, hb.kind_eq, hk] at hk'
      cases hk'
    | error f => exact ⟨f, rfl⟩
  unnamed ha hb h := by
    obtain ⟨_, hf⟩ | ⟨_, hn⟩ := (compareSingle_eq_error ha hb h).2
    · cases hf
    · exact hn
  room ha hb h := by
    obtain ⟨_, hf⟩ | ⟨hf, _⟩ := (compareSingle_eq_error ha.target_plain hb h).2 <;> cases hf

section

variable {rule : Ty → Ty → Except Fault Ty}

theorem distribute_eq_ok (h : distribute rule l r = .ok t) :
    l.Nameable ∧ r.Nameable ∧ ∃ cs, t = union cs ∧
      (∀ c ∈ cs, ∃ a ∈ l.members, ∃ b ∈ r.members, rule a b = .ok c) ∧
      ∀ a ∈ l.members, ∀ b ∈ r.members, ∃ c ∈ cs, rule a b = .ok c := by
  obtain ⟨ls, hl, h₁⟩ := bind_eq_ok.mp h
  obtain ⟨rs, hr, h₂⟩ := bind_eq_ok.mp h₁
  obtain ⟨rows, hmap, h₃⟩ := bind_eq_ok.mp h₂
  obtain ⟨hnl, rfl⟩ := sortedMembers_eq_ok.mp hl
  obtain ⟨hnr, rfl⟩ := sortedMembers_eq_ok.mp hr
  have hrows := mapM_eq_ok.mp hmap
  refine ⟨hnl, hnr, rows.flatten, (pure_eq_ok.mp h₃).symm, fun c hc => ?_, fun a ha b hb => ?_⟩
  · obtain ⟨row, hrow, hcr⟩ := List.mem_flatten.mp hc
    obtain ⟨a, ha, hab⟩ := forall₂_partner hrows hrow
    obtain ⟨b, hb, hc⟩ := forall₂_partner (mapM_eq_ok.mp hab) hcr
    exact ⟨a, mem_byName.mp ha, b, mem_byName.mp hb, hc⟩
  · obtain ⟨row, hrow, hab⟩ := forall₂_partner hrows.flip (mem_byName.mpr ha)
    obtain ⟨c, hcr, hc⟩ := forall₂_partner (mapM_eq_ok.mp hab).flip (mem_byName.mpr hb)
    exact ⟨c, List.mem_flatten.mpr ⟨row, hrow, hcr⟩, hc⟩

theorem distribute_eq_error {f : Fault} (h : distribute rule l r = .error f) :
    (f = .tooLong ∧ ¬ (l.Nameable ∧ r.Nameable)) ∨
      (l.Nameable ∧ r.Nameable ∧ ∃ a ∈ l.members, ∃ b ∈ r.members, rule a b = .error f) := by
  obtain hl | ⟨ls, hl, h₁⟩ := bind_eq_error.mp h
  · obtain ⟨hf, hn⟩ := sortedMembers_eq_error.mp hl
    exact .inl ⟨hf, fun hboth => hn hboth.1⟩
  obtain hr | ⟨rs, hr, h₂⟩ := bind_eq_error.mp h₁
  · obtain ⟨hf, hn⟩ := sortedMembers_eq_error.mp hr
    exact .inl ⟨hf, fun hboth => hn hboth.2⟩
  obtain ⟨hnl, rfl⟩ := sortedMembers_eq_ok.mp hl
  obtain ⟨hnr, rfl⟩ := sortedMembers_eq_ok.mp hr
  obtain hrows | ⟨_, _, h₃⟩ := bind_eq_error.mp h₂
  · obtain ⟨a, ha, hrow⟩ := exists_of_mapM_error hrows
    obtain ⟨b, hb, hab⟩ := exists_of_mapM_error hrow
    exact .inr ⟨hnl, hnr, a, mem_byName.mp ha, b, mem_byName.mp hb, hab⟩
  · cases h₃

theorem distribute_of_single (hl : l.isOneOf = false) (hr : r.isOneOf = false)
    (hw : ∀ c, rule l r = .ok c → c.WellFormed) : distribute rule l r = rule l r := by
  have hone {t : Ty} (ht : t.isOneOf = false) : t.sortedMembers = .ok [t] := by
    cases t with
    | oneOf ms => cases ht
    | _ => rfl
  unfold distribute
  rw [hone hl, hone hr]
  cases hc : rule l r with
  | error f => simp [bind, Except.bind, hc]
  | ok c => simp [bind, Except.bind, pure, Except.pure, hc, union_single (hw c hc)]

end

theorem isOneOf_widen (h : t.isOneOf = false) : (widen t).isOneOf = false := by
  cases t <;> first | rfl | cases h

theorem named_of_single (h : t.isOneOf = false) : t.Named ↔ t.HasName := by
  unfold Named
  rw [members_of_not_oneOf h]
  exact List.forall_mem_singleton

theorem hasName_widen (h : t.HasName) : (widen t).HasName := printable_iff.mp (printable_widen (printable_iff.mpr h))

theorem named_widen (wf : t.WellFormed) (h : t.Named) : (widen t).Named := by
  cases t with
  | oneOf ms =>
    rw [widen, widenAll_eq_map]
    refine named_union (wellFormed_map_widen (wellFormed_oneOf.mp wf).2) ?_
    refine List.forall_mem_map.mpr fun m hm => (named_of_single (isOneOf_widen (isOneOf_members wf hm))).mpr ?_
    exact hasName_widen (h m hm)
  | _ => exact (named_of_single (isOneOf_widen rfl)).mpr (hasName_widen ((named_of_single rfl).mp h))

theorem nameable_widen (wf : t.WellFormed) (h : t.Nameable) : (widen t).Nameable := by
  cases t with
  | oneOf ms => exact (named_widen wf (nameable_oneOf.mp h)).nameable
  | _ => exact nameable_of_single (isOneOf_widen rfl)

theorem named_of_member {m : Ty} (h : t.Nameable) (hm : m ∈ t.members) (hn : m.HasName) : t.Named := by
  cases t with
  | oneOf ms => exact nameable_oneOf.mp h
  | _ => exact (named_of_single rfl).mpr (List.mem_singleton.mp hm ▸ hn)

inductive SameKind : Except Fault Ty → Except Fault Ty → Prop
  | result {t u : Ty} (widened : same t.widen u = true) : SameKind (.ok t) (.ok u)
  | undefined {c d : TypeError} : SameKind (.error (.undefined c)) (.error (.undefined d))

structure Operand (t : Ty) : Prop where
  widens : t.Widens
  plain : ∀ m ∈ t.members, isAlternative m = true

theorem operand_of_known (h : t.Widens) (hu : t.isUnknown = false) (hn : t.isNever = false) : t.Operand := by
  refine ⟨h, fun m hm => ?_⟩
  cases t with
  | oneOf ms => exact (wellFormed_oneOf.mp h.1).1.2.plain m hm
  | unknown => cases hu
  | never => cases hn
  | _ => exact List.mem_singleton.mp hm ▸ rfl

theorem Operand.known (h : t.Operand) : t.isUnknown = false ∧ t.isNever = false := by
  cases t with
  | unknown => exact absurd (h.plain _ (List.mem_singleton_self _)) Bool.false_ne_true
  | never => exact absurd (h.plain _ (List.mem_singleton_self _)) Bool.false_ne_true
  | _ => exact ⟨rfl, rfl⟩

theorem Operand.widensTo (h : t.Operand) {m : Ty} (hm : m ∈ t.members) : ∃ m' ∈ (widen t).members, WidensTo m m' := by
  obtain ⟨m', hm', hs⟩ := (like_members_widen h.widens).2 _ (List.mem_map_of_mem hm)
  have hw' := every_members (wellFormed_widen h.widens.1) hm'
  exact ⟨m', hm', h.plain m hm, every_members h.widens.1 hm, hw', same_symm hs⟩

theorem Operand.widenedFrom (h : t.Operand) {m' : Ty} (hm : m' ∈ (widen t).members) :
    ∃ m ∈ t.members, WidensTo m m' := by
  obtain ⟨_, hx, hs⟩ := (like_members_widen h.widens).1 _ hm
  obtain ⟨m, hm', rfl⟩ := List.mem_map.mp hx
  have hw' := every_members (wellFormed_widen h.widens.1) hm
  exact ⟨m, hm', h.plain m hm', every_members h.widens.1 hm', hw', same_symm hs⟩

section

variable {rule : Ty → Ty → Except Fault Ty} (h : KeepsKinds rule) (hl : l.Operand) (hr : r.Operand)

include h hl hr

theorem distribute_widened (ht : distribute rule l r = .ok t) :
    ∃ u, distribute rule l.widen r.widen = .ok u ∧ same t.widen u = true := by
  obtain ⟨hnl, hnr, cs, rfl, hfrom, hto⟩ := distribute_eq_ok ht
  cases hu : distribute rule l.widen r.widen with
  | error f =>
    obtain ⟨_, hn⟩ | ⟨_, _, a', ha', b', hb', hf⟩ := distribute_eq_error hu
    · exact absurd ⟨nameable_widen hl.widens.1 hnl, nameable_widen hr.widens.1 hnr⟩ hn
    · obtain ⟨a, ha, haw⟩ := hl.widenedFrom ha'
      obtain ⟨b, hb, hbw⟩ := hr.widenedFrom hb'
      obtain ⟨c, _, hc⟩ := hto a ha b hb
      obtain ⟨c', hc', _⟩ := h.result haw hbw hc
      cases hf.symm.trans hc'
  | ok u =>
    obtain ⟨_, _, cs', rfl, hfrom', hto'⟩ := distribute_eq_ok hu
    refine ⟨_, rfl, same_widen_union_of_like ?_ ?_ ⟨?_, ?_⟩⟩
    · intro c hc
      obtain ⟨a, ha, b, hb, hab⟩ := hfrom c hc
      exact h.wellFormed (every_members hl.widens.1 ha) (every_members hr.widens.1 hb) hab
    · intro c' hc'
      obtain ⟨a', ha', b', hb', hab⟩ := hfrom' c' hc'
      exact h.wellFormed (every_members (wellFormed_widen hl.widens.1) ha')
        (every_members (wellFormed_widen hr.widens.1) hb') hab
    · refine List.forall_mem_map.mpr fun c hc => ?_
      obtain ⟨a, ha, b, hb, hab⟩ := hfrom c hc
      obtain ⟨a', ha', haw⟩ := hl.widensTo ha
      obtain ⟨b', hb', hbw⟩ := hr.widensTo hb
      obtain ⟨c', hc', hs⟩ := h.result haw hbw hab
      obtain ⟨d, hd, hab'⟩ := hto' a' ha' b' hb'
      obtain rfl := Except.ok.inj (hc'.symm.trans hab')
      exact ⟨c', hd, hs⟩
    · intro c' hc'
      obtain ⟨a', ha', b', hb', hab'⟩ := hfrom' c' hc'
      obtain ⟨a, ha, haw⟩ := hl.widenedFrom ha'
      obtain ⟨b, hb, hbw⟩ := hr.widenedFrom hb'
      obtain ⟨c, hc, hab⟩ := hto a ha b hb
      obtain ⟨d, hd, hs⟩ := h.result haw hbw hab
      obtain rfl := Except.ok.inj (hd.symm.trans hab')
      exact ⟨widen c, List.mem_map_of_mem hc, hs⟩

theorem distribute_refused {cause : TypeError} (hx : distribute rule l r = .error (.undefined cause)) :
    (∃ d, distribute rule l.widen r.widen = .error (.undefined d)) ∨
      (distribute rule l.widen r.widen = .error .tooLong ∧ ¬ (l.Named ∧ r.Named)) := by
  obtain ⟨hf, _⟩ | ⟨_, _, a, ha, b, hb, hab⟩ := distribute_eq_error hx
  · cases hf
  obtain ⟨a', ha', haw⟩ := hl.widensTo ha
  obtain ⟨b', hb', hbw⟩ := hr.widensTo hb
  obtain ⟨g, hg⟩ := h.refusal haw hbw hab
  cases hu : distribute rule l.widen r.widen with
  | ok u =>
    obtain ⟨_, _, _, _, _, hto⟩ := distribute_eq_ok hu
    obtain ⟨c, _, hc⟩ := hto a' ha' b' hb'
    cases hg.symm.trans hc
  | error f =>
    have hunnamed : ¬ (l.widen.Named ∧ r.widen.Named) → ¬ (l.Named ∧ r.Named) :=
      fun hn hboth => hn ⟨named_widen hl.widens.1 hboth.1, named_widen hr.widens.1 hboth.2⟩
    obtain ⟨rfl, hn⟩ | ⟨_, _, x, hx, y, hy, hxy⟩ := distribute_eq_error hu
    · exact .inr ⟨rfl, hunnamed fun hboth => hn ⟨hboth.1.nameable, hboth.2.nameable⟩⟩
    obtain ⟨x₀, _, hxw⟩ := hl.widenedFrom hx
    obtain ⟨y₀, _, hyw⟩ := hr.widenedFrom hy
    cases f with
    | undefined d => exact .inl ⟨d, rfl⟩
    | tooLong =>
      refine .inr ⟨rfl, hunnamed fun hboth => h.unnamed hxw.target_plain hyw.target_plain hxy ?_⟩
      exact ⟨hboth.1 x hx, hboth.2 y hy⟩
    | outOfMemory => exact absurd hxy (h.room hxw hyw.target_plain)

theorem distribute_tooLong (hx : distribute rule l r = .error .tooLong) : ¬ (l.Named ∧ r.Named) := by
  intro hboth
  obtain ⟨_, hn⟩ | ⟨_, _, a, ha, b, hb, hab⟩ := distribute_eq_error hx
  · exact hn ⟨hboth.1.nameable, hboth.2.nameable⟩
  · exact h.unnamed (hl.plain a ha) (hr.plain b hb) hab ⟨hboth.1 a ha, hboth.2 b hb⟩

theorem distribute_keepsKinds :
    SameKind (distribute rule l r) (distribute rule l.widen r.widen) ∨
      (distribute rule l r = .error .tooLong ∧ ¬ (l.Named ∧ r.Named)) ∨
      ((∃ cause, distribute rule l r = .error (.undefined cause)) ∧
        distribute rule l.widen r.widen = .error .tooLong ∧ ¬ (l.Named ∧ r.Named)) ∨
      distribute rule l r = .error .outOfMemory := by
  cases hx : distribute rule l r with
  | ok t =>
    obtain ⟨u, hu, hs⟩ := distribute_widened h hl hr hx
    rw [hu]
    exact .inl (.result hs)
  | error f =>
    cases f with
    | undefined cause =>
      obtain ⟨d, hd⟩ | hlong := distribute_refused h hl hr hx
      · rw [hd]
        exact .inl .undefined
      · exact .inr (.inr (.inl ⟨⟨cause, rfl⟩, hlong⟩))
    | tooLong => exact .inr (.inl ⟨rfl, distribute_tooLong h hl hr hx⟩)
    | outOfMemory => exact .inr (.inr (.inr rfl))

end

theorem Operand.widen (h : t.Operand) : (widen t).Operand := by
  have hw := wellFormed_widen h.widens.1
  refine ⟨⟨hw, ?_⟩, fun m' hm' => ?_⟩
  · rw [widen_widen h.widens.1]
    exact h.widens.2
  · obtain ⟨_, _, hto⟩ := h.widenedFrom hm'
    exact hto.target_plain

theorem binary_of_operands {op : BinaryOp} (hop : ∀ s, op ≠ .other s) (hl : l.Operand) (hr : r.Operand) :
    binary op l r = distribute (binarySingle op) l r := by
  have hsplit : binary op l r =
      if l.isOneOf || r.isOneOf then distribute (binarySingle op) l r else binarySingle op l r := by
    cases op with
    | other s => exact absurd rfl (hop s)
    | _ => simp only [binary, hl.known, hr.known, Bool.or_self, Bool.false_eq_true, if_false]
  rw [hsplit]
  split
  · rfl
  · next hone =>
    obtain ⟨hl', hr'⟩ : l.isOneOf = false ∧ r.isOneOf = false := by simpa using hone
    exact (distribute_of_single hl' hr' (permissive_wellFormed.binarySingle op hl.widens.1 hr.widens.1)).symm

theorem compare_of_operands (op : CompareOp) (hl : l.Operand) (hr : r.Operand) :
    compare op l r = distribute (compareSingle op) l r := by
  simp only [compare, hl.known, hr.known, Bool.or_self, Bool.false_eq_true, if_false]
  split
  · rfl
  · next hone =>
    obtain ⟨hl', hr'⟩ : l.isOneOf = false ∧ r.isOneOf = false := by simpa using hone
    exact (distribute_of_single hl' hr' (permissive_wellFormed.compareSingle op l r)).symm

theorem Widens.known_widen (h : t.Widens) :
    (Ty.widen t).isUnknown = t.isUnknown ∧ (Ty.widen t).isNever = t.isNever := by
  cases hu : t.isUnknown with
  | true =>
    rw [isUnknown_iff.mp hu]
    exact ⟨rfl, rfl⟩
  | false =>
    cases hn : t.isNever with
    | true =>
      obtain rfl : t = .never := by cases t <;> simp_all [isNever]
      exact ⟨rfl, rfl⟩
    | false => exact (operand_of_known h hu hn).widen.known

theorem binary_refused {op : BinaryOp} {cause : TypeError} (hl : l.Operand) (hr : r.Operand)
    (h : distribute (binarySingle op) l r = .error (.undefined cause)) : l.Named ∧ r.Named := by
  obtain ⟨hf, _⟩ | ⟨hnl, hnr, a, ha, b, hb, hab⟩ := distribute_eq_error h
  · cases hf
  obtain ⟨_, hm⟩ | ⟨hf, _⟩ := binarySingle_eq_error (hl.plain a ha) (hr.plain b hb) hab
  · obtain ⟨hf, _⟩ | ⟨_, hna, hnb⟩ := mismatch_eq_error hm
    · cases hf
    · exact ⟨named_of_member hnl ha hna, named_of_member hnr hb hnb⟩
  · cases hf

theorem distribute_outOfMemory {op : BinaryOp} (hl : l.Operand) (hr : r.Operand)
    (h : distribute (binarySingle op) l r = .error .outOfMemory) :
    ∃ x y, .literal x ∈ l.members ∧ .literal y ∈ r.members ∧ Scalar.outgrows op x y = true := by
  obtain ⟨hf, _⟩ | ⟨_, _, a, ha, b, hb, hab⟩ := distribute_eq_error h
  · cases hf
  obtain ⟨_, hm⟩ | ⟨_, x, y, rfl, rfl, hout⟩ := binarySingle_eq_error (hl.plain a ha) (hr.plain b hb) hab
  · obtain ⟨hf, _⟩ | ⟨⟨_, hf⟩, _⟩ := mismatch_eq_error hm <;> cases hf
  · exact ⟨x, y, ha, hb, hout⟩

theorem compare_ne_outOfMemory {op : CompareOp} (hl : l.Operand) (hr : r.Operand) :
    distribute (compareSingle op) l r ≠ .error .outOfMemory := by
  intro h
  obtain ⟨hf, _⟩ | ⟨_, _, a, ha, b, hb, hab⟩ := distribute_eq_error h
  · cases hf
  · obtain ⟨_, hf⟩ | ⟨hf, _⟩ := (compareSingle_eq_error (hl.plain a ha) (hr.plain b hb) hab).2 <;> cases hf

theorem binary_keepsKinds {op : BinaryOp} (hop : ∀ s, op ≠ .other s) (hl : l.Operand) (hr : r.Operand) :
    SameKind (binary op l r) (binary op l.widen r.widen) ∨
      (binary op l r = .error .tooLong ∧ ¬ (l.Named ∧ r.Named)) ∨
      (binary op l r = .error .outOfMemory ∧
        ∃ x y, .literal x ∈ l.members ∧ .literal y ∈ r.members ∧ Scalar.outgrows op x y = true) := by
  rw [binary_of_operands hop hl hr, binary_of_operands hop hl.widen hr.widen]
  obtain hsame | hlong | ⟨⟨cause, hx⟩, _, hn⟩ | hx := distribute_keepsKinds (keepsKinds_binarySingle op) hl hr
  · exact .inl hsame
  · exact .inr (.inl hlong)
  · exact absurd (binary_refused hl hr hx) hn
  · exact .inr (.inr ⟨hx, distribute_outOfMemory hl hr hx⟩)

theorem compare_keepsKinds (op : CompareOp) (hl : l.Operand) (hr : r.Operand) :
    SameKind (compare op l r) (compare op l.widen r.widen) ∨
      ((compare op l r = .error .tooLong ∨ compare op l.widen r.widen = .error .tooLong) ∧
        ¬ (l.Named ∧ r.Named)) := by
  rw [compare_of_operands op hl hr, compare_of_operands op hl.widen hr.widen]
  obtain hsame | ⟨hx, hn⟩ | ⟨_, hx, hn⟩ | hx := distribute_keepsKinds (keepsKinds_compareSingle op) hl hr
  · exact .inl hsame
  · exact .inr ⟨.inl hx, hn⟩
  · exact .inr ⟨.inr hx, hn⟩
  · exact absurd hx (compare_ne_outOfMemory hl hr)

/-- The operation on the widened types agrees with the operation on the types, but where an integer is too long to be
written or a text too large to be built. A widened type equals itself unless a signature in it holds a NaN without a
mark. -/
theorem folding_keeps_kinds (op : BinaryOp) (cmp : CompareOp) (l r : Ty) (wl : l.WellFormed) (wr : r.WellFormed)
    (sl : same l.widen l.widen = true) (sr : same r.widen r.widen = true) :
    (SameKind (binary op l r) (binary op l.widen r.widen) ∨
      (binary op l r = .error .tooLong ∧ ¬ (l.Named ∧ r.Named)) ∨
      (binary op l r = .error .outOfMemory ∧
        ∃ x y, .literal x ∈ l.members ∧ .literal y ∈ r.members ∧ Scalar.outgrows op x y = true)) ∧
    (SameKind (compare cmp l r) (compare cmp l.widen r.widen) ∨
      ((compare cmp l r = .error .tooLong ∨ compare cmp l.widen r.widen = .error .tooLong) ∧
        ¬ (l.Named ∧ r.Named))) := by
  obtain ⟨hlu, hln⟩ := Widens.known_widen ⟨wl, sl⟩
  obtain ⟨hru, hrn⟩ := Widens.known_widen ⟨wr, sr⟩
  constructor
  · by_cases hop : ∃ s, op = .other s
    · obtain ⟨s, rfl⟩ := hop
      exact .inl .undefined
    · cases hu : l.isUnknown || r.isUnknown with
      | true =>
        refine .inl ?_
        cases op <;> simp only [binary, hlu, hru, hu, if_true] <;> first | exact .undefined | exact .result rfl
      | false =>
        cases hn : l.isNever || r.isNever with
        | true =>
          refine .inl ?_
          cases op <;>
            simp only [binary, hlu, hru, hln, hrn, hu, hn, if_true, Bool.false_eq_true, if_false] <;>
            first | exact .undefined | exact .result rfl
        | false =>
          simp only [Bool.or_eq_false_iff] at hu hn
          exact binary_keepsKinds (fun s hs => hop ⟨s, hs⟩) (operand_of_known ⟨wl, sl⟩ hu.1 hn.1)
            (operand_of_known ⟨wr, sr⟩ hu.2 hn.2)
  · cases hn : l.isNever || r.isNever with
    | true =>
      refine .inl ?_
      simp only [compare, hln, hrn, hn, if_true]
      exact .result rfl
    | false =>
      cases hu : l.isUnknown || r.isUnknown with
      | true =>
        refine .inl ?_
        simp only [compare, hlu, hru, hln, hrn, hu, hn, if_true, Bool.false_eq_true, if_false]
        exact .result rfl
      | false =>
        simp only [Bool.or_eq_false_iff] at hu hn
        exact compare_keepsKinds cmp (operand_of_known ⟨wl, sl⟩ hu.1 hn.1) (operand_of_known ⟨wr, sr⟩ hu.2 hn.2)

theorem folding_keeps_kinds_of_mixed :
    SameKind (binary .mul (.oneOf [int 2, text "ab"]) (int 3)) (binary .mul (.oneOf [number, string]) number) ∧
    SameKind (compare .lt (.oneOf [int 2, text "ab"]) (int 3)) (compare .lt (.oneOf [number, string]) number) := by
  have hnamed : (oneOf [int 2, text "ab"]).Named ∧ (int 3).Named := by
    constructor <;> (unfold Named; decide +kernel)
  have h := folding_keeps_kinds .mul .lt (.oneOf [int 2, text "ab"]) (int 3) (by decide) (by decide) (by decide)
    (by decide)
  refine ⟨h.1.resolve_right ?_, h.2.resolve_right fun hn => hn.2 hnamed⟩
  rintro (⟨_, hn⟩ | ⟨_, x, y, _, _, hout⟩)
  · exact hn hnamed
  · cases x <;> cases y <;> cases hout

-- an integer of more than 4300 digits has no name, by which alternatives are put in order
example : (binary .add (.oneOf [int (10 ^ 4300), int 2]) number).toOption.isNone = true ∧
    (binary .add (widen (.oneOf [int (10 ^ 4300), int 2])) number).toOption.any (same number) = true := by
  decide +kernel

end Casewise.Ty
