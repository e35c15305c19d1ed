import Casewise.Proofs.TypeSplits

namespace Casewise

structure Delivers {α : Type} (p : Prop) (P : α → Prop) (result : Except Fault α) : Prop where
  holds : ∀ a, result = .ok a → P a
  total : p → ∃ a, result = .ok a

section Delivers

variable {α β : Type} {p : Prop} {P : α → Prop} {Q : β → Prop} {result : Except Fault α}

theorem delivers_ok {a : α} (h : P a) : Delivers p P (.ok a) :=
  ⟨fun _ ha => Except.ok.inj ha ▸ h, fun _ => ⟨a, rfl⟩⟩

theorem delivers_self (h : p → ∃ a, result = .ok a) : Delivers p (fun a => result = .ok a) result :=
  ⟨fun _ ha => ha, h⟩

theorem Delivers.mono {q : Prop} (h : Delivers p P result) (hq : q → p) : Delivers q P result :=
  ⟨h.holds, fun hp => h.total (hq hp)⟩

theorem Delivers.bind {f : α → Except Fault β} (h : Delivers p P result) (hf : ∀ a, P a → Delivers p Q (f a)) :
    Delivers p Q (result >>= f) where
  holds b hb := by
    obtain ⟨a, ha, hb⟩ := bind_eq_ok.mp hb
    exact (hf a (h.holds a ha)).holds b hb
  total hp := by
    obtain ⟨a, ha⟩ := h.total hp
    obtain ⟨b, hb⟩ := (hf a (h.holds a ha)).total hp
    exact ⟨b, bind_eq_ok.mpr ⟨a, ha, hb⟩⟩

end Delivers

def Value.anyType? : Value → Option Ty
  | .type t => some t
  | _ => none

def Narrowed.envs (n : Narrowed) : List Env := n.whenTrue.toList ++ n.whenFalse.toList

namespace Env

def boundType? (n : String) (env : Env) : Option Ty := (env.get? n).bind Value.anyType?

def Regular (env : Env) : Prop := ∀ n t, env.boundType? n = some t → t.Regular ∧ t ≠ .never

def Nameable (env : Env) : Prop := ∀ n t, env.boundType? n = some t → t.Nameable

structure Narrows (env e : Env) : Prop where
  names : e.names = env.names
  others : ∀ n, env.boundType? n = none → e.get? n = env.get? n
  types : ∀ n t, env.boundType? n = some t → ∃ u, e.boundType? n = some u ∧ Ty.same (Ty.union [u, t]) t = true
  regular : e.Regular
  nameable : env.Nameable → e.Nameable

structure SplitInto (env : Env) (envs : List Env) : Prop where
  nonempty : envs ≠ []
  narrows : ∀ e ∈ envs, env.Narrows e
  union : ∀ n t, env.boundType? n = some t → Ty.same (Ty.union (envs.filterMap (boundType? n))) t = true

variable {env e : Env} {n : String} {t u : Ty}

theorem boundType?_eq_some : env.boundType? n = some t ↔ env.get? n = some (.type t) := by
  unfold boundType?
  cases env.get? n with
  | none => simp
  | some v => cases v <;> simp [Value.anyType?]

theorem boundType?_of_typeOf? (h : env.typeOf? n = some t) : env.boundType? n = some t := by
  obtain ⟨v, hv, ht⟩ := Option.bind_eq_some_iff.mp h
  rw [boundType?_eq_some, hv]
  cases v with
  | type s => cases s <;> simp_all [Value.type?]
  | _ => cases ht

theorem boundType?_set {k : String} :
    boundType? k (env.set n (.type u)) = if n = k then some u else env.boundType? k := by
  unfold boundType?
  by_cases h : n = k
  · rw [if_pos h, h, Bindings.get?_set_self]
    rfl
  · rw [if_neg h, Bindings.get?_set_of_ne h]

theorem names_set_of_bound (h : env.boundType? n = some t) : (env.set n (.type u)).names = env.names := by
  rw [Bindings.names_set, if_pos]
  by_contra hn
  rw [boundType?_eq_some, Bindings.get?_eq_none_iff.mpr hn] at h
  cases h

theorem get?_set_of_not_type {k : String} (h : env.boundType? n = some t) (hk : env.boundType? k = none) :
    (env.set n (.type u)).get? k = env.get? k := by
  refine Bindings.get?_set_of_ne ?_ _ _
  rintro rfl
  rw [h] at hk
  cases hk

theorem narrows_set (henv : env.Regular) (hn : env.boundType? n = some t) (hu : u.Regular) (hne : u ≠ .never)
    (hname : u.Nameable) (hs : Ty.same (Ty.union [u, t]) t = true) : env.Narrows (env.set n (.type u)) where
  names := names_set_of_bound hn
  others k hk := get?_set_of_not_type hn hk
  types k s hk := by
    rw [boundType?_set]
    by_cases h : n = k
    · obtain rfl : t = s := by
        rw [h, hk] at hn
        exact (Option.some.inj hn).symm
      exact ⟨u, if_pos h, hs⟩
    · exact ⟨s, by rw [if_neg h, hk], Ty.same_union_of_all_eq (henv k s hk).1 (by simp) (by simp)⟩
  regular k s hk := by
    rw [boundType?_set] at hk
    split at hk
    · obtain rfl := Option.some.inj hk
      exact ⟨hu, hne⟩
    · exact henv k s hk
  nameable hall k s hk := by
    rw [boundType?_set] at hk
    split at hk
    · obtain rfl := Option.some.inj hk
      exact hname
    · exact hall k s hk

theorem narrows_refl (henv : env.Regular) : env.Narrows env where
  names := rfl
  others _ _ := rfl
  types n t hn := ⟨t, hn, Ty.same_union_of_all_eq (henv n t hn).1 (by simp) (by simp)⟩
  regular := henv
  nameable := id

theorem Narrows.trans {e' : Env} (henv : env.Regular) (h : env.Narrows e) (h' : e.Narrows e') : env.Narrows e' where
  names := h'.names.trans h.names
  others n hn := by
    have he := h.others n hn
    have hnone : e.boundType? n = none := by rwa [boundType?, he]
    rw [h'.others n hnone, he]
  types n t hn := by
    obtain ⟨u, hu, hut⟩ := h.types n t hn
    obtain ⟨v, hv, hvu⟩ := h'.types n u hu
    exact ⟨v, hv, Ty.same_union_trans (h'.regular n v hv).1 (h.regular n u hu).1 (henv n t hn).1 hvu hut⟩
  regular := h'.regular
  nameable hn := h'.nameable (h.nameable hn)

theorem splitInto_set {us : List Ty} (henv : env.Regular) (hn : env.boundType? n = some t)
    (hu : ∀ u ∈ us, u.Regular ∧ u ≠ .never ∧ u.Nameable) (hs : Ty.same (Ty.union us) t = true) :
    env.SplitInto (us.map fun u => env.set n (.type u)) := by
  have ht := henv n t hn
  have hne : us ≠ [] := Ty.ne_nil_of_same_union hs ht.2
  refine ⟨by simpa using hne, ?_, fun k s hk => ?_⟩
  · simp only [List.forall_mem_map]
    intro u hmem
    obtain ⟨hr, hnever, hname⟩ := hu u hmem
    exact narrows_set henv hn hr hnever hname (Ty.same_union_of_part ht.1 (fun x hx => (hu x hx).1) hs hmem)
  · rw [List.filterMap_map]
    by_cases h : n = k
    · obtain rfl : t = s := by
        rw [h, hk] at hn
        exact (Option.some.inj hn).symm
      have hparts : us.filterMap (boundType? k ∘ fun u => env.set n (.type u)) = us := by
        simp [boundType?_set, h]
      rwa [hparts]
    · have hparts : us.filterMap (boundType? k ∘ fun u => env.set n (.type u)) = us.map fun _ => s := by
        simp [boundType?_set, h, hk]
      rw [hparts]
      exact Ty.same_union_of_all_eq (henv k s hk).1 (by simpa using hne) (by simp)

theorem toList_refine :
    (env.refine n u).toList = ([u].filter fun u => !u.isNever).map fun u => env.set n (.type u) := by
  unfold refine
  by_cases hu : u.isNever = true <;> simp [hu]

theorem envs_split {a b : Ty} :
    (env.split n a b).envs = ([a, b].filter fun u => !u.isNever).map fun u => env.set n (.type u) := by
  have happend : [a, b] = [a] ++ [b] := rfl
  rw [happend, List.filter_append, List.map_append, ← toList_refine, ← toList_refine]
  rfl

theorem splitInto_split {a b : Ty} (henv : env.Regular) (hn : env.boundType? n = some t) (h : Ty.Splits t a b) :
    env.SplitInto (env.split n a b).envs := by
  rw [envs_split]
  refine splitInto_set henv hn (fun u hu => ?_) ?_
  · obtain ⟨hmem, hnever⟩ := List.mem_filter.mp hu
    have hne : u ≠ .never := by
      rintro rfl
      cases hnever
    rcases List.mem_pair.mp hmem with rfl | rfl
    · exact ⟨h.left, hne, h.nameable.1⟩
    · exact ⟨h.right, hne, h.nameable.2⟩
  · rw [Ty.union_filter_not_never]
    exact h.union

theorem SplitInto.swap {r : Narrowed} (h : env.SplitInto r.envs) : env.SplitInto r.swap.envs := by
  have hp : r.envs.Perm r.swap.envs := List.perm_append_comm
  refine ⟨fun hnil => h.nonempty ?_, fun e he => h.narrows e (hp.mem_iff.mpr he), fun n t hn => ?_⟩
  · rw [hnil] at hp
    exact hp.eq_nil
  · have hmem (u : Ty) : u ∈ r.swap.envs.filterMap (boundType? n) ↔ u ∈ r.envs.filterMap (boundType? n) :=
      (hp.symm.filterMap _).mem_iff
    refine Ty.same_trans (Ty.same_union_of_mem_iff (fun u hu => ?_) hmem) (h.union n t hn)
    obtain ⟨e, he, hu⟩ := List.mem_filterMap.mp ((hmem u).mp hu)
    exact ((h.narrows e he).regular n u hu).1

theorem splitInto_beside {last : Option Env} (henv : env.Regular) (h : ∀ e ∈ last, env.Narrows e) :
    env.SplitInto (Narrowed.envs ⟨last, some env⟩) := by
  have hrefl := narrows_refl henv
  cases last with
  | none =>
    refine ⟨by simp [Narrowed.envs], by simpa [Narrowed.envs] using hrefl, fun n t hn => ?_⟩
    have hparts : (Narrowed.envs ⟨none, some env⟩).filterMap (boundType? n) = [t] := by simp [Narrowed.envs, hn]
    rw [hparts, Ty.union_single (henv n t hn).1.wellFormed]
    exact (henv n t hn).1.self
  | some e =>
    have he := h e rfl
    refine ⟨by simp [Narrowed.envs], by simpa [Narrowed.envs] using ⟨he, hrefl⟩, fun n t hn => ?_⟩
    obtain ⟨u, hu, hs⟩ := he.types n t hn
    have hparts : (Narrowed.envs ⟨some e, some env⟩).filterMap (boundType? n) = [u, t] := by
      simp [Narrowed.envs, hu, hn]
    rwa [hparts]

theorem splitInto_both (henv : env.Regular) : env.SplitInto (Narrowed.both env).envs :=
  splitInto_beside henv fun _ he => Option.mem_some.mp he ▸ narrows_refl henv

def Lossless (env : Env) : Except Fault Narrowed → Prop := Delivers env.Nameable fun r => env.SplitInto r.envs

theorem lossless_both (henv : env.Regular) : env.Lossless (.ok (.both env)) := delivers_ok (splitInto_both henv)

theorem lossless_narrowTruth (henv : env.Regular) (n : String) : env.Lossless (env.narrowTruth n) := by
  unfold narrowTruth
  cases ht : env.typeOf? n with
  | none => exact lossless_both henv
  | some t =>
    have hn := boundType?_of_typeOf? ht
    have hpart (b : Bool) : Delivers env.Nameable (fun x => t.truthPart b = .ok x) (t.truthPart b) :=
      delivers_self fun hname => ⟨_, Ty.truthPart_eq_ok.mpr ⟨hname n t hn, rfl⟩⟩
    refine (hpart true).bind fun x hx => (hpart false).bind fun y hy => delivers_ok ?_
    exact splitInto_split henv hn (Ty.splits_truth (henv n t hn).1 hx hy)

theorem lossless_narrowInstance (henv : env.Regular) (n : String) (classes : List KnownClass) :
    env.Lossless (env.narrowInstance n classes) := by
  unfold narrowInstance
  cases ht : env.typeOf? n with
  | none => exact lossless_both henv
  | some t =>
    cases classes with
    | nil => exact lossless_both henv
    | cons c cs =>
      have hn := boundType?_of_typeOf? ht
      have hpart (b : Bool) :
          Delivers env.Nameable (fun x => t.instancePart (c :: cs) b = .ok x) (t.instancePart (c :: cs) b) :=
        delivers_self fun hname => ⟨_, Ty.instancePart_eq_ok.mpr ⟨hname n t hn, rfl⟩⟩
      refine (hpart true).bind fun x hx => (hpart false).bind fun y hy => delivers_ok ?_
      exact splitInto_split henv hn (Ty.splits_instance (henv n t hn).1 hx hy)

theorem lossless_narrowNone (henv : env.Regular) (n : String) (op : CompareOp) :
    env.Lossless (env.narrowNone n op) := by
  unfold narrowNone
  cases ht : env.typeOf? n with
  | none => exact lossless_both henv
  | some t =>
    have hn := boundType?_of_typeOf? ht
    have hnone : Delivers env.Nameable (fun x => t.nonePart = .ok x) t.nonePart :=
      delivers_self fun hname => Ty.nonePart_of_nameable (hname n t hn)
    have hrest : Delivers env.Nameable (fun x => t.withoutNone = .ok x) t.withoutNone :=
      delivers_self fun hname => ⟨_, Ty.withoutNone_eq_ok.mpr ⟨hname n t hn, rfl⟩⟩
    refine hnone.bind fun x hx => hrest.bind fun y hy => ?_
    have hsplit : env.SplitInto (env.split n x y).envs :=
      splitInto_split henv hn (Ty.splits_none (henv n t hn).1 hx hy)
    cases op with
    | is | eq => exact delivers_ok hsplit
    | isNot | ne => exact delivers_ok hsplit.swap
    | _ => exact lossless_both henv

def Passes (env : Env) : Except Fault (Option Env) → Prop :=
  Delivers env.Nameable fun last => ∀ e ∈ last, env.Narrows e

theorem SplitInto.narrows_passing {r : Narrowed} (h : env.SplitInto r.envs) {op : LogicalOp} :
    ∀ e ∈ r.passing op, env.Narrows e := by
  intro e he
  refine h.narrows e (List.mem_append.mpr ?_)
  cases op with
  | and => exact .inl (Option.mem_toList.mpr he)
  | or => exact .inr (Option.mem_toList.mpr he)

end Env

namespace Expr

theorem lossless_narrow (e : Expr) (env : Env) : env.Regular → env.Lossless (e.narrow env) := by
  -- the operands of `and` and `or` are passed one by one; what they leave is compared with where the first one began
  refine narrow.induct_unfolding (fun _ env result => env.Regular → env.Lossless result)
    (fun _ _ start result => ∀ base : Env, base.Regular → (∀ e ∈ start, base.Narrows e) → base.Passes result)
    ?not ?logical ?name ?none ?order ?shadowed ?isinstance ?other ?last ?operand ?left e env
  case not =>
    intro _ e env ih henv
    exact (ih henv).bind fun r hr => delivers_ok hr.swap
  case logical =>
    intro _ op es env ih henv
    refine (ih env henv fun e he => Option.mem_some.mp he ▸ Env.narrows_refl henv).bind fun last hlast => ?_
    have hbeside := Env.splitInto_beside henv hlast
    cases op with
    | and => exact delivers_ok hbeside
    | or => exact delivers_ok hbeside.swap
  case name =>
    intro _ n env henv
    exact Env.lossless_narrowTruth henv n
  case none =>
    intro _ _ n op _ env _ henv
    exact Env.lossless_narrowNone henv n op
  case order =>
    intro _ _ _ _ _ env _ henv
    exact Env.lossless_both henv
  case shadowed =>
    intro _ _ _ _ _ _ env _ henv
    exact Env.lossless_both henv
  case isinstance =>
    intro _ _ _ n classes _ env _ henv
    exact Env.lossless_narrowInstance henv n (KnownClass.ofExpr classes)
  case other =>
    intro _ env _ _ _ _ _ henv
    exact Env.lossless_both henv
  case last =>
    intro _ start base _ hstart
    exact delivers_ok hstart
  case operand =>
    intro op _ _ env ih ihs base hbase hstart
    have henv := hstart env rfl
    refine ((ih henv.regular).mono henv.nameable).bind fun r hr => ihs r base hbase fun e he => ?_
    exact henv.trans hbase (hr.narrows_passing e he)
  case left =>
    intro _ _ _ base _ hstart
    exact delivers_ok hstart

/-- Narrowing by a test loses nothing: there is an outcome, and the environments of the outcomes together say what
the environment before the test said. It gives a result where the alternatives of the variables can be put in order. -/
theorem narrow_loses_nothing (e : Expr) (env : Env) (henv : env.Regular) :
    (∀ r, e.narrow env = .ok r → env.SplitInto r.envs) ∧ (env.Nameable → ∃ r, e.narrow env = .ok r) :=
  ⟨(lossless_narrow e env henv).holds, (lossless_narrow e env henv).total⟩

theorem narrow_loses_nothing_flag_or_present :
    Env.Regular [("flag", .type .boolean), ("x", .type (.oneOf [.null, .number])), ("f", .builtin "len")] ∧
      ∃ r, narrow (.logical ⟨1, 3, 1, 28⟩ .or [.unary ⟨1, 3, 1, 11⟩ .not (.name ⟨1, 7, 1, 11⟩ "flag"),
          .comparison ⟨1, 15, 1, 28⟩ (.name ⟨1, 15, 1, 16⟩ "x") [(.isNot, .constant ⟨1, 24, 1, 28⟩ .null)]])
          [("flag", .type .boolean), ("x", .type (.oneOf [.null, .number])), ("f", .builtin "len")] = .ok r ∧
        Env.SplitInto [("flag", .type .boolean), ("x", .type (.oneOf [.null, .number])), ("f", .builtin "len")]
          r.envs := by
  obtain ⟨env, henv⟩ : ∃ env : Env,
      env = [("flag", .type .boolean), ("x", .type (.oneOf [.null, .number])), ("f", .builtin "len")] := ⟨_, rfl⟩
  rw [← henv]
  have hbound {n : String} {t : Ty} (h : env.boundType? n = some t) : t = .boolean ∨ t = .oneOf [.null, .number] := by
    have hm := Bindings.mem_of_get? (Env.boundType?_eq_some.mp h)
    simp only [henv, List.mem_cons, Prod.mk.injEq, Value.type.injEq, List.not_mem_nil, or_false] at hm
    rcases hm with ⟨_, h⟩ | ⟨_, h⟩ | ⟨_, h⟩
    · exact .inl h
    · exact .inr h
    · cases h
  have hregular : env.Regular := by
    intro n t h
    rcases hbound h with rfl | rfl
    · exact ⟨⟨by decide, by decide⟩, nofun⟩
    · exact ⟨⟨by decide, by decide⟩, nofun⟩
  have hname : env.Nameable := by
    intro n t h
    rcases hbound h with rfl | rfl
    · decide
    · decide
  obtain ⟨r, hr⟩ := (narrow_loses_nothing _ env hregular).2 hname
  exact ⟨hregular, r, hr, (narrow_loses_nothing _ env hregular).1 r hr⟩

end Expr

end Casewise
