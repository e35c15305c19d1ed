import Casewise.Proofs.ArgumentGrammar
import Casewise.Proofs.Symbolic.Closed

namespace Casewise

def CaseValue.Meets (D : Datum → Prop) (K : Ty → Prop) : CaseValue → Prop
  | .concrete d => D d
  | .symbolic t => K t

theorem CaseValue.Meets.datum? {D : Datum → Prop} {K : Ty → Prop} {v : CaseValue} {d : Datum} (hv : v.Meets D K)
    (hd : v.datum? = some d) : D d := by
  cases v with
  | concrete e => exact Option.some.inj hd ▸ hv
  | symbolic t => cases hd

namespace Argument

def Returns {α : Type} (x : Reader α) (P : α → Prop) : Prop := ∀ s : State, Yields (x.run s).1 P

section

variable {α β : Type} {P : α → Prop} {Q : β → Prop}

theorem returns_pure {a : α} (h : P a) : Returns (pure a) P := fun _ => yields_ok h

theorem returns_fail {e : ArgumentError} {span : Span} : Returns (fail e span) P := fun _ => yields_error

theorem Returns.bind {x : Reader α} {f : α → Reader β} (hx : Returns x P) (hf : ∀ a, P a → Returns (f a) Q) :
    Returns (x >>= f) Q := by
  intro s
  have hs : (x >>= f).run s = ExceptT.bindCont f (x.run s).1 (x.run s).2 := rfl
  have hp := hx s
  rw [hs]
  cases hr : (x.run s).1 with
  | error e => exact yields_error
  | ok a => exact hf a (hp a hr) _

theorem returns_bind {x : Reader α} {f : α → Reader β} (hf : ∀ a, Returns (f a) Q) : Returns (x >>= f) Q :=
  Returns.bind (P := fun _ => True) (fun _ _ _ => trivial) fun a _ => hf a

theorem returns_ite {c : Prop} [Decidable c] {x y : Reader α} (hx : Returns x P) (hy : Returns y P) :
    Returns (if c then x else y) P := by
  split
  · exact hx
  · exact hy

end

structure Closed (D : Datum → Prop) (K : Ty → Prop) : Prop where
  ofDatum : ∀ {d}, D d → K (.ofDatum d)
  null : D .null
  number : ∀ {cs n}, Numeral.number? cs = some n → D (.scalar (.number n)) ∧ D (.scalar (.number n.negate))
  text : ∀ s, D (.text s)
  bool : ∀ b, D (.bool b)
  list : ∀ {ds}, (∀ d ∈ ds, D d) → D (.list ds)
  record : ∀ {fs : List (String × Datum)}, (∀ f ∈ fs, D f.2) → D (.record fs)
  primitive : ∀ p, K (.primitive p)
  unknown : K .unknown
  never : K .never
  throws : ∀ e, K (.throws e)
  union : ∀ {ts}, (∀ t ∈ ts, K t) → K (.union ts)
  object : ∀ {fs : List (String × Ty)}, (∀ f ∈ fs, K f.2) → K (.record fs)
  array : ∀ {t}, K t → K (.array t)
  tuple : ∀ {ts}, (∀ t ∈ ts, K t) → K (.tuple ts)
  function : ∀ {ps r}, K r → (∀ t ∈ ps, K t) → K (.function ps r)

namespace Closed

variable {D : Datum → Prop} {K : Ty → Prop} (h : Closed D K)

include h

theorem type {v : CaseValue} (hv : v.Meets D K) : K v.type := by
  cases v with
  | concrete d => exact h.ofDatum hv
  | symbolic t => exact hv

theorem types {vs : List CaseValue} (hvs : ∀ v ∈ vs, v.Meets D K) : ∀ t ∈ vs.map CaseValue.type, K t :=
  List.forall_mem_map.mpr fun v hv => h.type (hvs v hv)

theorem placeholder? {name : String} {t : Ty} (ht : placeholder? name = some t) : K t := by
  unfold Argument.placeholder? at ht
  split at ht <;> first | (obtain rfl := Option.some.inj ht) | simp at ht
  case h_6 => exact h.unknown
  case h_7 => exact h.never
  all_goals exact h.primitive _

theorem constant? {name : String} {v : CaseValue} (hv : constant? name = some v) : v.Meets D K := by
  unfold Argument.constant? at hv
  split at hv <;> first | (obtain rfl := Option.some.inj hv) | simp at hv
  case h_5 => exact h.null
  case h_6 => exact h.null
  case h_7 => exact h.primitive _
  all_goals exact h.bool _

theorem container {vs : List CaseValue} (hvs : ∀ v ∈ vs, v.Meets D K) : (container vs).Meets D K := by
  rw [container_eq, CaseValue.sequence]
  split
  · exact h.array (h.union (h.types hvs))
  · refine h.list fun d hd => ?_
    obtain ⟨v, hv, hvd⟩ := List.mem_filterMap.mp hd
    exact (hvs v hv).datum? hvd

theorem fields {fs : Bindings CaseValue} (hfs : ∀ f ∈ fs, f.2.Meets D K) : (Argument.object fs).Meets D K := by
  rw [object_eq, CaseValue.keyed]
  split
  · exact h.object (List.forall_mem_map.mpr fun f hf => h.type (hfs f hf))
  · refine h.record fun g hg => ?_
    obtain ⟨f, hf, hfg⟩ := List.mem_filterMap.mp hg
    obtain ⟨d, hd, rfl⟩ := Option.map_eq_some_iff.mp hfg
    exact (hfs f hf).datum? hd

theorem literal? {v : CaseValue} {t : Ty} (hv : v.Meets D K) (ht : literal? v = some t) : K t := by
  unfold Argument.literal? at ht
  split at ht
  · exact Option.some.inj ht ▸ h.primitive _
  · exact Option.some.inj ht ▸ h.ofDatum hv
  · cases ht

theorem objectType? {v : CaseValue} {t : Ty} (hv : v.Meets D K) (ht : objectType? v = some t) : K t := by
  unfold Argument.objectType? at ht
  split at ht
  · exact Option.some.inj ht ▸ h.ofDatum hv
  · cases ht
  · exact Option.some.inj ht ▸ hv

theorem number? (p : Place) (t : Token) :
    Returns (Argument.number p t) fun n => D (.scalar (.number n)) ∧ D (.scalar (.number n.negate)) := by
  unfold Argument.number
  split
  · next n hn => exact returns_pure (h.number hn)
  · exact returns_fail

theorem unaryType (p : Place) (name : Token) {v : CaseValue} (hv : v.Meets D K) : Returns (unaryType p name v) K := by
  unfold Argument.unaryType
  split
  · split
    · next t ht => exact returns_pure (h.literal? hv ht)
    · exact returns_fail
  · exact returns_pure (h.array (h.type hv))
  · split
    · next t ht => exact returns_pure (h.objectType? hv ht)
    · exact returns_fail

theorem throwsType (p : Place) : Returns (throwsType p) K := by
  unfold Argument.throwsType
  refine returns_bind fun b => returns_ite ?_ (returns_pure (h.throws _))
  exact returns_bind fun _ => returns_bind fun _ => returns_bind fun _ => returns_pure (h.throws _)

end Closed

structure Sound (D : Datum → Prop) (K : Ty → Prop) (p : Place) (n : Nat) : Prop where
  value : Returns (value p n) (CaseValue.Meets D K)
  items : ∀ closer, Returns (items p closer n) fun vs => ∀ v ∈ vs, v.Meets D K
  parenthesized : Returns (parenthesized p n) (CaseValue.Meets D K)
  fields : ∀ before : Bindings CaseValue, (∀ f ∈ before, f.2.Meets D K) →
    Returns (fields p before n) fun fs => ∀ f ∈ fs, f.2.Meets D K
  constructed : ∀ name, Returns (constructed p name n) (CaseValue.Meets D K)
  returnType : Returns (returnType p n) K

section

variable {D : Datum → Prop} {K : Ty → Prop} (c : Closed D K) {p : Place} {n : Nat} (h : Sound D K p n)

include c h

theorem returns_value : Returns (value p (n + 1)) (CaseValue.Meets D K) := by
  unfold value
  refine returns_bind fun next => ?_
  split
  · exact returns_fail
  split
  · exact returns_bind fun _ => (c.number? p _).bind fun _ hn => returns_pure hn.1
  · refine returns_bind fun _ => returns_bind fun digits => ?_
    exact (c.number? p digits).bind fun _ hn => returns_pure hn.2
  · exact returns_bind fun _ => returns_pure (c.text _)
  · exact returns_bind fun _ => (h.items _).bind fun vs hvs => returns_pure (c.container hvs)
  · exact returns_bind fun _ => h.parenthesized
  · exact returns_bind fun _ => (h.fields [] (by simp)).bind fun fs hfs => returns_pure (c.fields hfs)
  · refine returns_bind fun _ => ?_
    split
    · next v hv => exact returns_pure (c.constant? hv)
    · exact returns_ite (returns_bind fun _ => returns_bind fun name => h.constructed name) returns_fail
  · exact returns_fail

omit c in
theorem returns_items (closer : TokenKind) : Returns (items p closer (n + 1)) fun vs => ∀ v ∈ vs, v.Meets D K := by
  unfold items
  refine returns_bind fun _ => returns_ite (returns_bind fun _ => returns_pure (by simp)) ?_
  refine h.value.bind fun v hv => returns_bind fun _ => ?_
  have hrest : Returns (items p closer n >>= fun vs => pure (v :: vs)) fun vs => ∀ v ∈ vs, v.Meets D K :=
    (h.items closer).bind fun vs hvs => returns_pure (List.forall_mem_cons.mpr ⟨hv, hvs⟩)
  refine returns_ite (returns_bind fun _ => hrest) (returns_bind fun _ => returns_ite ?_ hrest)
  exact returns_bind fun _ => returns_bind fun _ => returns_bind fun _ => hrest

theorem returns_parenthesized : Returns (parenthesized p (n + 1)) (CaseValue.Meets D K) := by
  unfold parenthesized
  refine returns_bind fun _ => returns_ite (returns_bind fun _ => returns_pure (c.list (by simp))) ?_
  refine h.value.bind fun v hv => returns_bind fun _ => returns_ite (returns_bind fun _ => returns_pure hv) ?_
  refine returns_bind fun _ => (h.items _).bind fun vs hvs => returns_pure ?_
  exact c.container (List.forall_mem_cons.mpr ⟨hv, hvs⟩)

omit c in
theorem returns_fields {before : Bindings CaseValue} (hb : ∀ f ∈ before, f.2.Meets D K) :
    Returns (fields p before (n + 1)) fun fs => ∀ f ∈ fs, f.2.Meets D K := by
  unfold fields
  refine returns_bind fun _ => returns_ite (returns_bind fun _ => returns_pure hb) ?_
  refine returns_bind fun key => returns_ite ?_ returns_fail
  refine returns_bind fun _ => returns_bind fun _ => h.value.bind fun v hv => returns_bind fun _ => ?_
  have hrest := h.fields (before.set ((key.map Token.text).getD "") v) fun f hf => by
    rcases Bindings.mem_set hf with hf | hf
    · exact hf ▸ hv
    · exact hb f hf
  refine returns_ite (returns_bind fun _ => hrest) (returns_bind fun _ => returns_ite ?_ hrest)
  exact returns_bind fun _ => returns_bind fun _ => returns_bind fun _ => hrest

theorem returns_constructed (name : Token) : Returns (constructed p name (n + 1)) (CaseValue.Meets D K) := by
  unfold constructed
  split
  · next t ht =>
    have ht : Returns (pure (.symbolic t)) (CaseValue.Meets D K) := returns_pure (c.placeholder? ht)
    refine returns_bind fun _ => returns_ite ?_ ht
    exact returns_bind fun _ => returns_bind fun _ => ht
  split
  · exact (c.throwsType p).bind fun t ht => returns_pure ht
  · refine returns_bind fun _ => returns_bind fun _ => (h.items _).bind fun vs hvs => ?_
    refine h.returnType.bind fun t ht => returns_bind fun _ => returns_pure ?_
    exact c.function ht (c.types hvs)
  · refine returns_bind fun _ => returns_bind fun _ => (h.items _).bind fun vs hvs => ?_
    exact returns_bind fun _ => returns_pure (c.tuple (c.types hvs))
  · refine returns_bind fun _ => (h.items _).bind fun vs hvs => returns_pure ?_
    exact c.union (c.types hvs)
  · refine returns_ite (returns_bind fun _ => (h.items _).bind fun vs hvs => ?_) ?_
    · split
      · next v => exact (c.unaryType p name (hvs v (by simp))).bind fun t ht => returns_pure ht
      · exact returns_fail
    · have hunknown : Returns (pure (.symbolic .unknown)) (CaseValue.Meets D K) := returns_pure c.unknown
      refine returns_bind fun _ => returns_bind fun _ => returns_ite ?_ hunknown
      exact returns_bind fun _ => returns_bind fun _ => hunknown

theorem returns_returnType : Returns (returnType p (n + 1)) K := by
  unfold returnType
  refine returns_bind fun _ => returns_ite ?_ (returns_pure c.unknown)
  refine returns_bind fun _ => returns_bind fun _ => returns_ite (returns_pure c.unknown) ?_
  exact h.value.bind fun v hv => returns_pure (c.type hv)

end

namespace Closed

variable {D : Datum → Prop} {K : Ty → Prop} (c : Closed D K)

include c

theorem sound (p : Place) (n : Nat) : Sound D K p n := by
  induction n with
  | zero =>
    constructor
    all_goals first | exact returns_fail | exact fun _ => returns_fail | exact fun _ _ => returns_fail
  | succ n ih =>
    exact ⟨returns_value c ih, returns_items ih, returns_parenthesized c ih, fun _ => returns_fields ih,
      returns_constructed c ih, returns_returnType c ih⟩

theorem whole (p : Place) (span : Span) : Returns (whole p span) (CaseValue.Meets D K) := by
  unfold Argument.whole
  refine returns_bind fun s => returns_ite (returns_bind fun _ => ?_) ?_
  all_goals
    refine (c.sound p _).value.bind fun v hv => returns_bind fun _ => ?_
    split
    · exact returns_fail
    · exact returns_pure hv

theorem evaluate (arg : ArgumentText) : arg.evaluate.1.Meets D K := by
  unfold ArgumentText.evaluate
  dsimp only
  split
  · split
    · next v s hv => exact c.whole _ _ _ v (congrArg Prod.fst hv)
    · exact c.unknown
  · exact c.unknown

end Closed

end Argument

end Casewise
