import Casewise.Proofs.Narrowing
import Casewise.Proofs.Symbolic.Closed
import Casewise.Symbolic.Pattern

namespace Casewise

structure Value.Closed (K : Ty → Prop) (P : Value → Prop) : Prop where
  types : Ty.Closed K
  type : ∀ {t}, P (.type t) ↔ K t

def Value.Meets (K : Ty → Prop) (knows : String → Prop) (made : Nat → Prop) : Value → Prop
  | .type t => K t
  | .external .. => True
  | .function name _ => knows name
  | .builtin _ => True
  | .method receiver .. => K receiver
  | .closure id _ => made id

theorem Value.meets_true (v : Value) : v.Meets (fun _ => True) (fun _ => True) fun _ => True := by
  cases v <;> trivial

def Env.All (P : Value → Prop) (env : Env) : Prop := ∀ b ∈ env, P b.2

namespace Env.All

variable {P : Value → Prop} {env new : Env} {v : Value}

theorem set (he : env.All P) (hv : P v) (name : String) : All P (env.set name v) := Bindings.forall_mem_set name he hv

theorem erase (he : env.All P) (name : String) : All P (env.erase name) := Bindings.forall_mem_erase name he

theorem update (he : env.All P) (hn : new.All P) : All P (env.update new) := Bindings.forall_mem_update new he hn

theorem get? (he : env.All P) {name : String} (hv : env.get? name = some v) : P v :=
  he _ (Bindings.mem_of_get? hv)

end Env.All

structure Narrowed.All (P : Value → Prop) (n : Narrowed) : Prop where
  whenTrue : ∀ env, n.whenTrue = some env → env.All P
  whenFalse : ∀ env, n.whenFalse = some env → env.All P

namespace Narrowed.All

variable {P : Value → Prop} {env : Env} {n : Narrowed}

theorem both (he : env.All P) : All P (.both env) where
  whenTrue _ h := Option.some.inj h ▸ he
  whenFalse _ h := Option.some.inj h ▸ he

theorem swap (h : n.All P) : n.swap.All P := ⟨h.whenFalse, h.whenTrue⟩

theorem passing (h : n.All P) {op : LogicalOp} (he : n.passing op = some env) : env.All P := by
  cases op with
  | and => exact h.whenTrue env he
  | or => exact h.whenFalse env he

theorem given (h : n.All P) (truth : Option Bool) : (n.given truth).All P where
  whenTrue env he := by
    unfold Narrowed.given at he
    dsimp only at he
    split at he
    · cases he
    · exact h.whenTrue env he
  whenFalse env he := by
    unfold Narrowed.given at he
    dsimp only at he
    split at he
    · cases he
    · exact h.whenFalse env he

end Narrowed.All

namespace Value.Closed

variable {K : Ty → Prop} {P : Value → Prop} (h : Closed K P) {v : Value} {env : Env} {t u : Ty}

include h

theorem unknown : P .unknown := h.type.mpr h.types.unknown

theorem functionType (arity : Nat) : K (functionType arity) :=
  h.types.function.mpr ⟨h.types.unknown, fun _ hp => List.eq_of_mem_replicate hp ▸ h.types.unknown⟩

theorem asType (hv : P v) : K v.asType := by
  cases v with
  | type t =>
    cases t with
    | throws x => exact h.types.unknown
    | _ => exact h.type.mp hv
  | external w p => exact h.types.unknown
  | _ => exact h.functionType _

theorem rawType (hv : P v) : K v.rawType := by
  cases v with
  | type t => exact h.type.mp hv
  | _ => exact h.asType hv

theorem widen (hv : P v) : P v.widen := by
  unfold Value.widen
  split
  · next t ht =>
    obtain rfl : v = .type t := by
      cases v with
      | type u => cases u <;> simp_all [type?]
      | _ => simp [type?] at ht
    exact h.type.mpr (h.types.widen (h.type.mp hv))
  · exact hv

theorem typeOf? (he : env.All P) {name : String} (ht : env.typeOf? name = some t) : K t := by
  obtain ⟨v, hv, hvt⟩ := Option.bind_eq_some_iff.mp ht
  have hv := he.get? hv
  cases v with
  | type u =>
    obtain rfl : u = t := by
      cases u <;> simp_all [type?]
    exact h.type.mp hv
  | _ => simp [type?] at hvt

theorem mergeValues {vs : List Value} (hv : ∀ v ∈ vs, P v) : P (Env.mergeValues vs) := by
  unfold Env.mergeValues
  split
  · exact h.unknown
  · split
    · exact hv _ (by simp)
    · exact h.type.mpr (h.types.union (List.forall_mem_map.mpr fun v hm => h.asType (hv v hm)))

theorem merge {envs : List Env} (he : ∀ env ∈ envs, env.All P) : (Env.merge envs).All P := by
  unfold Env.merge
  split
  · exact he _ (by simp)
  · refine List.forall_mem_map.mpr fun n _ => h.mergeValues fun v hv => ?_
    obtain ⟨env, henv, hget⟩ := List.mem_filterMap.mp hv
    exact (he env henv).get? hget

theorem widenChanged (before : Env) (he : env.All P) : (before.widenChanged env).All P := by
  refine List.forall_mem_map.mpr fun (n, v) hb => ?_
  have hv : P v := he (n, v) hb
  dsimp only
  cases before.get? n with
  | none => exact h.widen hv
  | some old =>
    dsimp only
    split
    · exact hv
    · exact h.widen hv

theorem split (he : env.All P) (name : String) (ht : K t) (hu : K u) : (env.split name t u).All P := by
  have hrefine {t : Ty} (ht : K t) (inner : Env) (hi : env.refine name t = some inner) : inner.All P := by
    unfold Env.refine at hi
    split at hi
    · cases hi
    · exact Option.some.inj hi ▸ he.set (h.type.mpr ht) name
  exact ⟨hrefine ht, hrefine hu⟩

theorem narrowTruth (he : env.All P) (name : String) : Yields (env.narrowTruth name) (Narrowed.All P) := by
  unfold Env.narrowTruth
  split
  · next t ht =>
    have hk := h.typeOf? he ht
    exact (h.types.truthPart hk true).bind fun _ ha => (h.types.truthPart hk false).bind fun _ hb =>
      yields_ok (h.split he name ha hb)
  · exact yields_ok (.both he)

theorem narrowNone (he : env.All P) (name : String) (op : CompareOp) :
    Yields (env.narrowNone name op) (Narrowed.All P) := by
  unfold Env.narrowNone
  split
  · next t ht =>
    refine (h.types.nonePart t).bind fun _ ha => (h.types.withoutNone (h.typeOf? he ht)).bind fun _ hb => ?_
    have hs := h.split he name ha hb
    dsimp only
    split
    · exact yields_ok hs
    · exact yields_ok hs
    · exact yields_ok hs.swap
    · exact yields_ok hs.swap
    · exact yields_ok (.both he)
  · exact yields_ok (.both he)

theorem narrowInstance (he : env.All P) (name : String) (classes : List KnownClass) :
    Yields (env.narrowInstance name classes) (Narrowed.All P) := by
  unfold Env.narrowInstance
  split
  · next t _ _ ht =>
    have hk := h.typeOf? he ht
    exact (h.types.instancePart hk _ true).bind fun _ ha => (h.types.instancePart hk _ false).bind fun _ hb =>
      yields_ok (h.split he name ha hb)
  · exact yields_ok (.both he)

theorem narrow (e : Expr) (env : Env) : env.All P → Yields (e.narrow env) (Narrowed.All P) := by
  -- the induction carries the result, so that the operands of a logical test pass on what is left
  refine Expr.narrow.induct_unfolding (fun _ env result => env.All P → Yields result (Narrowed.All P))
    (fun _ _ start result => (∀ e, start = some e → e.All P) → Yields result fun last => ∀ e, last = some e → e.All P)
    ?not ?logical ?name ?none ?order ?shadowed ?isinstance ?other ?last ?operand ?left e env
  case not =>
    intro _ e env ih he
    exact (ih he).bind fun r hr => yields_ok hr.swap
  case logical =>
    intro _ op es env ih he
    have hsome : ∀ e, some env = some e → e.All P := fun e hs => Option.some.inj hs ▸ he
    refine (ih hsome).bind fun last hlast => ?_
    cases op with
    | and => exact yields_ok ⟨hlast, hsome⟩
    | or => exact yields_ok ⟨hsome, hlast⟩
  case name =>
    intro _ n env he
    exact h.narrowTruth he n
  case none =>
    intro _ _ n op _ env _ he
    exact h.narrowNone he n op
  case order =>
    intro _ _ _ _ _ env _ he
    exact yields_ok (.both he)
  case shadowed =>
    intro _ _ _ _ _ _ env _ he
    exact yields_ok (.both he)
  case isinstance =>
    intro _ _ _ n classes _ env _ he
    exact h.narrowInstance he n (KnownClass.ofExpr classes)
  case other =>
    intro _ env _ _ _ _ _ he
    exact yields_ok (.both he)
  case last =>
    intro _ start hs
    exact yields_ok hs
  case operand =>
    intro op _ _ env ih ihs hs
    exact (ih (hs env rfl)).bind fun r hr => ihs r fun e he => hr.passing he
  case left =>
    intro _ _ _ _
    exact yields_ok (by simp)

theorem bindName (he : env.All P) (ht : K t) (name : Option String) : (Pattern.bindName name t env).All P := by
  cases name with
  | none => exact he
  | some n => exact he.set (h.type.mpr ht) n

theorem fieldType (ht : K t) (key : Expr) : Yields (Pattern.fieldType t key) K := by
  unfold Pattern.fieldType
  split
  · next fields =>
    refine yields_bind fun name => ?_
    split
    · next n =>
      refine yields_ok ?_
      cases hg : Bindings.get? n fields with
      | none => exact h.types.unknown
      | some f => exact h.types.field ht _ (Bindings.mem_of_get? hg)
    · exact yields_ok h.types.unknown
  · exact yields_ok h.types.unknown

theorem itemTypes (ht : K t) (ps : List Pattern) : Yields (Pattern.itemTypes t ps) fun ts => ∀ t ∈ ts, K t := by
  have halike : Yields (Pattern.itemTypes.alike t ps) fun ts => ∀ t ∈ ts, K t :=
    (h.types.itemsOf ht).bind fun u hu => yields_ok (List.forall_mem_map.mpr fun _ _ => hu)
  have hshape := h.types.sameShape ht
  unfold Pattern.itemTypes
  split
  · next items hs =>
    split
    · exact yields_ok (h.types.tuple.mp (hs ▸ hshape))
    · exact halike
  · exact halike

omit h

mutual

theorem bindPattern (h : Closed K P) : ∀ (p : Pattern) {t : Ty} {env : Env}, K t → env.All P →
    Yields (p.bind t env) (Env.All P)
  | .value _, _, _, _, he => yields_ok he
  | .single _, _, _, _, he => yields_ok he
  | .capture none name, _, _, ht, he => by
    rw [Pattern.bind, Pattern.bindOption]
    exact yields_ok (h.bindName he ht name)
  | .capture (some p) name, _, _, ht, he => by
    rw [Pattern.bind, Pattern.bindOption]
    exact (bindPattern h p ht he).bind fun _ hi => yields_ok (h.bindName hi ht name)
  | .alternatives ps, _, _, ht, he => by
    rw [Pattern.bind]
    exact bindPatterns h ps (List.forall_mem_map.mpr fun _ _ => ht) he
  | .sequence ps, _, _, ht, he => by
    rw [Pattern.bind]
    exact (h.itemTypes ht ps).bind fun ts hts => bindPatterns h ps hts he
  | .star name, _, _, _, he => yields_ok (h.bindName he (h.types.array.mpr h.types.unknown) name)
  | .mapping entries rest, _, _, ht, he => by
    rw [Pattern.bind]
    exact (bindEntries h entries ht he).bind fun _ hi => yields_ok (h.bindName hi ht rest)
  | .object _ ps, _, _, _, he => by
    rw [Pattern.bind]
    exact bindPatterns h ps (List.forall_mem_map.mpr fun _ _ => h.types.unknown) he

theorem bindPatterns (h : Closed K P) : ∀ (ps : List Pattern) {ts : List Ty} {env : Env}, (∀ t ∈ ts, K t) →
    env.All P → Yields (Pattern.bindEach ps ts env) (Env.All P)
  | [], _, _, _, he => yields_ok he
  | _ :: _, [], _, _, he => yields_ok he
  | p :: ps, t :: ts, _, ht, he => by
    rw [Pattern.bindEach]
    obtain ⟨ht, hts⟩ := List.forall_mem_cons.mp ht
    exact (bindPattern h p ht he).bind fun _ hi => bindPatterns h ps hts hi

theorem bindEntries (h : Closed K P) : ∀ (entries : List (Expr × Pattern)) {t : Ty} {env : Env}, K t → env.All P →
    Yields (Pattern.bindEntries entries t env) (Env.All P)
  | [], _, _, _, he => yields_ok he
  | (key, p) :: rest, _, _, ht, he => by
    rw [Pattern.bindEntries]
    exact (h.fieldType ht key).bind fun _ hu => (bindPattern h p hu he).bind fun _ hi => bindEntries h rest ht hi

end

end Value.Closed

end Casewise
