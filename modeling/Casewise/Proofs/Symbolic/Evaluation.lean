import Casewise.Proofs.Symbolic.Calls

namespace Casewise

def Expr.spread : Expr → Expr
  | .starred _ e => e
  | e => e

namespace Symbolic

theorem Machine.assignEach_cons (m : Machine) (e : Expr) (es : List Expr) (t : Ty) (ts : List Ty) (s : Nat) :
    m.assignEach (e :: es) (t :: ts) s = (do
      m.assign e.spread (.type t) s
      m.assignEach es ts s) := by
  cases e <;> rfl

theorem Machine.eval_subscript (m : Machine) (p : Extent) (v : Expr) {index : Expr}
    (hslice : ∀ q lower upper step, index ≠ .slice q lower upper step) (s : Nat) :
    m.eval (.subscript p v index) s = located m.module p (do
      let container ← m.forced (m.eval v s) v.pos
      let index ← m.forced (m.eval index s) index.pos
      return .type (← m.itemOf container index p)) := by
  cases index with
  | slice q lower upper step => exact absurd rfl (hslice q lower upper step)
  | _ => rfl

namespace RunLogic

section

variable {ι : Type} (L : RunLogic ι) (l : L.Level) (start : L.World)

def Evaluates (e : Expr) : Prop :=
  ∀ w s, L.later start w → L.At w l s → L.Judge w (fun i => (L.machine i).eval e (L.number i s)) fun w v => L.Fits w l v

def Assigns (e : Expr) : Prop :=
  ∀ w s v, L.later start w → L.At w l s → L.Fits w l v →
    L.Judge w (fun i => (L.machine i).assign e v (L.number i s)) fun _ _ => True

end

namespace Lawful

variable {ι : Type} {L : RunLogic ι} (h : L.Lawful) {l : L.Level} {start : L.World}

include h

section

variable {w : L.World}

theorem constantType (c : Constant) : L.Raw c.type := by
  cases c with
  | null => exact h.raw.primitive _
  | scalar s => exact h.raw.scalar s
  | other cls spelling => exact h.raw.unknown

theorem chained {ts : List Ty} (ht : ∀ t ∈ ts, L.Holds t) : L.Holds (chained ts) := by
  have hunion := h.closed.union ht
  unfold Symbolic.chained
  split
  · exact hunion
  · next hs => exact hs ▸ hunion
  · exact h.closed.never
  · exact h.closed.primitive _

theorem deciding {t : Ty} (ht : L.Holds t) (op : LogicalOp) : Yields (deciding op t) fun ts => ∀ t ∈ ts, L.Holds t := by
  unfold Symbolic.deciding
  split
  · exact (h.closed.truthPart ht _).bind fun _ hu => yields_ok (List.forall_mem_singleton.mpr hu)
  · exact yields_ok (List.forall_mem_nil _)

theorem unpack {t : Ty} (ht : L.Holds t) (pos : Extent) (starred : List Bool) :
    L.Judge w (fun i => unpack (L.machine i).module pos t starred) fun _ ts => ∀ t ∈ ts, L.Holds t := by
  have hshape := h.closed.sameShape ht
  unfold Symbolic.unpack
  split
  · next items hs =>
    refine h.located L.setting.module pos (h.liftFault ?_)
    exact h.closed.unpackedItems starred (h.closed.tuple.mp (hs ▸ hshape))
  · refine h.bind (P := fun _ => L.Holds) (h.liftFault (h.closed.itemsOf hshape)) fun _ _ _ hu => ?_
    exact h.pure (h.closed.unpackedAlike starred hu)

theorem storeItem {container value : Ty} (hc : L.Holds container) (hv : L.Holds value) (key : Ty) (name : String)
    {s : Nat} (hs : L.At w l s) :
    L.Judge w (fun i => storeItem container key value name (L.number i s)) fun _ _ => True := by
  unfold Symbolic.storeItem
  split
  · split
    · refine h.assignName name hs (h.closed.record ?_)
      exact Bindings.forall_mem_set _ (h.closed.field hc) hv
    · exact h.pure trivial
  · refine h.assignName name hs (h.closed.array.mpr (h.closed.union ?_))
    simpa using ⟨h.closed.array.mp hc, hv⟩
  · exact h.pure trivial

end

section

variable {w : L.World} {s : Nat} {e : Expr} {es : List Expr}

theorem forcedEval (he : L.Evaluates l start e) (pos : Extent) (hw : L.later start w) (hs : L.At w l s) :
    L.Judge w (fun i => (L.machine i).forced ((L.machine i).eval e (L.number i s)) pos) fun _ t => L.Holds t :=
  h.forced pos (he w s hw hs)

theorem forcedIn (he : L.Evaluates l start e) (hw : L.later start w) {env : Option Env}
    (henv : ∀ v, env = some v → v.All (L.Fits w l)) :
    L.Judge w (fun i => Symbolic.inScope? env fun inner => (L.machine i).forced ((L.machine i).eval e inner) e.pos)
      fun _ o => ∀ t, o = some t → L.Holds t :=
  h.inScope? henv fun _ _ hw₁ hs => h.forcedEval he e.pos (h.trans hw hw₁) hs

theorem evalLogical (op : LogicalOp) (he : ∀ e ∈ es, L.Evaluates l start e) (hw : L.later start w) (hs : L.At w l s) :
    L.Judge w (fun i => (L.machine i).evalLogical op es (L.number i s)) fun _ ts => ∀ t ∈ ts, L.Holds t := by
  induction es generalizing w s with
  | nil => exact h.pure (List.forall_mem_nil _)
  | cons e es ih =>
    obtain ⟨hfirst, hes⟩ := List.forall_mem_cons.mp he
    cases es with
    | nil =>
      exact h.bind (h.forcedEval hfirst _ hw hs) fun _ _ _ ht => h.pure (List.forall_mem_singleton.mpr ht)
    | cons e' es =>
      refine h.bind (h.forcedEval hfirst _ hw hs) fun w₁ t hw₁ ht => ?_
      split
      · exact h.pure (List.forall_mem_singleton.mpr ht)
      · refine h.bind (P := fun _ ts => ∀ t ∈ ts, L.Holds t) (h.liftFault (h.deciding ht op))
          fun w₂ part hw₂ hpart => ?_
        have hw₂ := h.trans hw₁ hw₂
        refine h.bind (h.narrowed (h.at_later hw₂ hs)) fun w₃ n hw₃ hn => ?_
        have hw₃ := h.trans hw (h.trans hw₂ hw₃)
        refine h.bind (h.inScope? (fun _ => hn.passing) fun w₄ _ hw₄ hs₄ => ih hes (h.trans hw₃ hw₄) hs₄)
          fun _ others _ hothers => h.pure (List.forall_mem_append.mpr ⟨hpart, ?_⟩)
        cases others with
        | none => exact List.forall_mem_nil _
        | some ts => exact hothers ts rfl

theorem evalCompared {rs : List (CompareOp × Expr)} (he : ∀ r ∈ rs, L.Evaluates l start r.2) {left : Ty}
    (hl : L.Holds left) (hw : L.later start w) (hs : L.At w l s) :
    L.Judge w (fun i => (L.machine i).evalCompared left rs (L.number i s)) fun _ ts => ∀ t ∈ ts, L.Holds t := by
  induction rs generalizing w left with
  | nil => exact h.pure (List.forall_mem_nil _)
  | cons r rs ih =>
    obtain ⟨he, hrs⟩ := List.forall_mem_cons.mp he
    obtain ⟨op, e⟩ := r
    refine h.bind (h.forcedEval he _ hw hs) fun w₁ t hw₁ ht => ?_
    refine h.bind (P := fun _ => L.Holds) (h.liftFault (h.closed.compare op hl ht)) fun w₂ u hw₂ hu => ?_
    have hw₂ := h.trans hw₁ hw₂
    refine h.bind (ih hrs ht (h.trans hw hw₂) (h.at_later hw₂ hs)) fun _ ts _ hts => ?_
    exact h.pure (List.forall_mem_cons.mpr ⟨hu, hts⟩)

theorem evalArgs (he : ∀ e ∈ es, L.Evaluates l start e) (hw : L.later start w) (hs : L.At w l s) :
    L.Judge w (fun i => (L.machine i).evalArgs es (L.number i s)) fun w p => ∀ v ∈ p.1, L.Fits w l v := by
  induction es generalizing w with
  | nil => exact h.pure (List.forall_mem_nil _)
  | cons e es ih =>
    obtain ⟨he, hes⟩ := List.forall_mem_cons.mp he
    simp only [Machine.evalArgs]
    refine h.bind (he w s hw hs) fun w₁ v hw₁ hv => ?_
    refine h.bind (ih hes (h.trans hw hw₁) (h.at_later hw₁ hs)) fun w₂ p hw₂ hp => ?_
    split
    · exact h.pure hp
    · exact h.pure (List.forall_mem_cons.mpr ⟨h.fits_later hw₂ hv, hp⟩)

theorem evalKeywords {ks : List (Keyword Expr)} (he : ∀ k ∈ ks, L.Evaluates l start k.value) (hw : L.later start w)
    (hs : L.At w l s) :
    L.Judge w (fun i => (L.machine i).evalKeywords ks (L.number i s)) fun w p => p.1.All (L.Fits w l) := by
  induction ks generalizing w with
  | nil => exact h.pure (List.forall_mem_nil _)
  | cons k ks ih =>
    obtain ⟨he, hks⟩ := List.forall_mem_cons.mp he
    obtain ⟨name, e⟩ := k
    refine h.bind (he w s hw hs) fun w₁ v hw₁ hv => ?_
    refine h.bind (ih hks (h.trans hw hw₁) (h.at_later hw₁ hs)) fun w₂ p hw₂ hp => ?_
    cases name with
    | none => exact h.pure hp
    | some n => exact h.pure (List.forall_mem_cons.mpr ⟨h.fits_later hw₂ hv, hp⟩)

theorem evalBound {e : Option Expr} (he : ∀ c, e = some c → L.Evaluates l start c) (hw : L.later start w)
    (hs : L.At w l s) : L.Judge w (fun i => (L.machine i).evalBound e (L.number i s)) fun _ _ => True := by
  cases e with
  | none => exact h.pure trivial
  | some e =>
    exact h.bind (h.forcedEval (he e rfl) _ hw hs) fun _ _ _ _ => h.pure trivial

theorem evalTuple (he : ∀ e ∈ es, L.Evaluates l start e) (loose : Bool) {before : List Ty}
    (hb : ∀ t ∈ before, L.Holds t) (hw : L.later start w) (hs : L.At w l s) :
    L.Judge w (fun i => (L.machine i).evalTuple loose before es (L.number i s)) fun _ t => L.Holds t := by
  induction es generalizing w before loose with
  | nil =>
    refine h.pure ?_
    split
    · exact h.closed.array.mpr (h.closed.union hb)
    · exact h.closed.tuple.mpr hb
  | cons e es ih =>
    obtain ⟨he, hes⟩ := List.forall_mem_cons.mp he
    have hadd {t : Ty} (ht : L.Holds t) : ∀ u ∈ before ++ [t], L.Holds u :=
      List.forall_mem_append.mpr ⟨hb, List.forall_mem_singleton.mpr ht⟩
    refine h.bind (h.forcedEval he _ hw hs) fun w₁ t hw₁ ht => ?_
    have hitem {u : Ty} (hu : L.Holds u) : L.Judge w₁ (fun i => do
        let item ← Symbolic.liftFault u.itemsOf
        (L.machine i).evalTuple true (before ++ [item]) es (L.number i s)) fun _ t => L.Holds t := by
      refine h.bind (P := fun _ => L.Holds) (h.liftFault (h.closed.itemsOf hu)) fun w₂ item hw₂ hi => ?_
      have hw₂ := h.trans hw₁ hw₂
      exact ih hes true (hadd hi) (h.trans hw hw₂) (h.at_later hw₂ hs)
    split
    · exact ih hes loose (hadd ht) (h.trans hw hw₁) (h.at_later hw₁ hs)
    · split
      · exact hitem ht
      · have hshape := h.closed.sameShape ht
        split
        · next items hi =>
          have hitems := h.closed.tuple.mp (hi ▸ hshape)
          exact ih hes false (List.forall_mem_append.mpr ⟨hb, hitems⟩) (h.trans hw hw₁) (h.at_later hw₁ hs)
        · exact hitem hshape

theorem evalItems (he : ∀ e ∈ es, L.Evaluates l start e) (hw : L.later start w) (hs : L.At w l s) :
    L.Judge w (fun i => (L.machine i).evalItems es (L.number i s)) fun _ ts => ∀ t ∈ ts, L.Holds t := by
  induction es generalizing w with
  | nil => exact h.pure (List.forall_mem_nil _)
  | cons e es ih =>
    obtain ⟨he, hes⟩ := List.forall_mem_cons.mp he
    refine h.bind (h.forcedEval he _ hw hs) fun w₁ t hw₁ ht => ?_
    have hitem : Yields (if e.isStarred then t.itemsOf else .ok t) L.Holds := by
      split
      · exact h.closed.itemsOf ht
      · exact yields_ok ht
    refine h.bind (P := fun _ => L.Holds) (h.liftFault hitem) fun w₂ u hw₂ hu => ?_
    have hw₂ := h.trans hw₁ hw₂
    refine h.bind (ih hes (h.trans hw hw₂) (h.at_later hw₂ hs)) fun _ ts _ hts => ?_
    exact h.pure (List.forall_mem_cons.mpr ⟨hu, hts⟩)

theorem evalEntries {es : List (Option Expr × Expr)}
    (he : ∀ e ∈ es, (∀ k, e.1 = some k → L.Evaluates l start k) ∧ L.Evaluates l start e.2) (known : Bool)
    {fields : Bindings Ty} (hf : ∀ f ∈ fields, L.Holds f.2) (hw : L.later start w) (hs : L.At w l s) :
    L.Judge w (fun i => (L.machine i).evalEntries fields known es (L.number i s)) fun _ t => L.Holds t := by
  induction es generalizing w fields known with
  | nil =>
    refine h.pure ?_
    split
    · exact h.closed.record hf
    · exact h.closed.unknown
  | cons e es ih =>
    obtain ⟨⟨hk, hv⟩, hes⟩ := List.forall_mem_cons.mp he
    obtain ⟨key, value⟩ := e
    cases key with
    | none =>
      refine h.bind (h.forcedEval hv _ hw hs) fun w₁ t hw₁ ht => ?_
      have hw := h.trans hw hw₁
      have hs := h.at_later hw₁ hs
      split
      · exact ih hes known (Bindings.forall_mem_update _ hf (h.closed.field ht)) hw hs
      · exact ih hes false hf hw hs
    | some k =>
      refine h.bind (h.forcedEval hv _ hw hs) fun w₁ t hw₁ ht => ?_
      refine h.bind (h.forcedEval (hk k rfl) _ (h.trans hw hw₁) (h.at_later hw₁ hs)) fun w₂ u hw₂ _ => ?_
      have hw₂ := h.trans hw₁ hw₂
      have hw := h.trans hw hw₂
      have hs := h.at_later hw₂ hs
      split
      · exact ih hes known (Bindings.forall_mem_set _ hf ht) hw hs
      · exact ih hes false hf hw hs

theorem evalParts (he : ∀ p v spec, .formatted p v spec ∈ es → L.Evaluates l start v) (hw : L.later start w)
    (hs : L.At w l s) : L.Judge w (fun i => (L.machine i).evalParts es (L.number i s)) fun _ _ => True := by
  induction es generalizing w with
  | nil => exact h.pure trivial
  | cons e es ih =>
    have hes : ∀ p v spec, .formatted p v spec ∈ es → L.Evaluates l start v := fun p v spec hm =>
      he p v spec (List.mem_cons_of_mem e hm)
    cases e with
    | formatted p v spec =>
      refine h.bind (h.forcedEval (he p v spec (by simp)) _ hw hs) fun w₁ _ hw₁ _ => ?_
      exact ih hes (h.trans hw hw₁) (h.at_later hw₁ hs)
    | _ =>
      exact ih hes hw hs

theorem evalConditions (he : ∀ e ∈ es, L.Evaluates l start e) (hw : L.later start w) (hs : L.At w l s) :
    L.Judges (.option .scope) w (fun i => (L.machine i).evalConditions es (L.number i s))
      fun w o => ∀ s, o = some s → L.At w l s := by
  induction es generalizing w s with
  | nil => exact h.pureAs _ (some s) fun _ hsome => Option.some.inj hsome ▸ hs
  | cons e es ih =>
    obtain ⟨he, hes⟩ := List.forall_mem_cons.mp he
    refine h.bind (he w s hw hs) fun w₁ _ hw₁ _ => h.bind (h.narrowed (h.at_later hw₁ hs)) fun w₂ n hw₂ hn => ?_
    split
    · exact h.pureAs _ none nofun
    · next env hsome =>
      refine h.bindAs (h.newScope (hn.whenTrue env hsome)) fun w₃ inner hw₃ hinner => ?_
      exact ih hes (h.trans hw (h.trans hw₁ (h.trans hw₂ hw₃))) hinner

theorem evalGenerators {gs : List (Generator Expr)}
    (hg : ∀ g ∈ gs, L.Assigns l start g.target ∧ L.Evaluates l start g.source ∧
      ∀ e ∈ g.conditions, L.Evaluates l start e) (hw : L.later start w) (hs : L.At w l s) :
    L.Judges (.option .scope) w (fun i => (L.machine i).evalGenerators gs (L.number i s))
      fun w o => ∀ s, o = some s → L.At w l s := by
  induction gs generalizing w s with
  | nil => exact h.pureAs _ (some s) fun _ hsome => Option.some.inj hsome ▸ hs
  | cons g gs ih =>
    obtain ⟨⟨htarget, hsource, hconditions⟩, hgs⟩ := List.forall_mem_cons.mp hg
    obtain ⟨target, source, conditions⟩ := g
    refine h.bind (h.forcedEval hsource _ hw hs) fun w₁ t hw₁ ht => ?_
    refine h.bind (P := fun _ => L.Holds) (h.liftFault (h.closed.itemsOf ht)) fun w₂ item hw₂ hi => ?_
    have hw₂ := h.trans hw₁ hw₂
    refine h.bind (htarget w₂ s (.type item) (h.trans hw hw₂) (h.at_later hw₂ hs) hi) fun w₃ _ hw₃ _ => ?_
    have hw₃ := h.trans hw₂ hw₃
    refine h.bindAs (h.evalConditions hconditions (h.trans hw hw₃) (h.at_later hw₃ hs)) fun w₄ o hw₄ ho => ?_
    cases o with
    | none => exact h.pureAs _ none nofun
    | some inner => exact ih hgs (h.trans hw (h.trans hw₃ hw₄)) (ho inner rfl)

theorem assignEach {ts : List Ty} (he : ∀ e ∈ es, L.Assigns l start e.spread) (ht : ∀ t ∈ ts, L.Holds t)
    (hw : L.later start w) (hs : L.At w l s) :
    L.Judge w (fun i => (L.machine i).assignEach es ts (L.number i s)) fun _ _ => True := by
  induction es generalizing w ts with
  | nil => exact h.pure trivial
  | cons e es ih =>
    cases ts with
    | nil => cases e <;> exact h.pure trivial
    | cons t ts =>
      obtain ⟨he, hes⟩ := List.forall_mem_cons.mp he
      obtain ⟨ht, hts⟩ := List.forall_mem_cons.mp ht
      simp only [Machine.assignEach_cons]
      exact h.bind (he w s (.type t) hw hs ht) fun w₁ _ hw₁ _ => ih hes hts (h.trans hw hw₁) (h.at_later hw₁ hs)

end

section

variable {p : Extent} {e left right test body otherwise : Expr}

theorem evaluates_constant (c : Constant) : L.Evaluates l start (.constant p c) := by
  intro w s _ _
  exact h.located L.setting.module _ (h.bind (h.marked (h.constantType c)) fun _ _ _ ht => h.pure ht)

theorem evaluates_binary (op : BinaryOp) (hl : L.Evaluates l start left) (hr : L.Evaluates l start right) :
    L.Evaluates l start (.binary p op left right) := by
  intro w s hw hs
  refine h.located L.setting.module _ (h.bind (h.forcedEval hl _ hw hs) fun w₁ t hw₁ ht => ?_)
  refine h.bind (h.forcedEval hr _ (h.trans hw hw₁) (h.at_later hw₁ hs)) fun _ u _ hu => ?_
  exact h.bind (h.computed (h.raw.binary op (h.raw_of_holds ht) (h.raw_of_holds hu))) fun _ _ _ hr => h.pure hr

theorem evaluates_unary (op : UnaryOp) (he : L.Evaluates l start e) : L.Evaluates l start (.unary p op e) := by
  intro w s hw hs
  refine h.located L.setting.module _ (h.bind (h.forcedEval he _ hw hs) fun _ t _ _ => ?_)
  exact h.bind (h.computed (h.raw.unary op t)) fun _ _ _ hr => h.pure hr

theorem evaluates_logical (op : LogicalOp) {es : List Expr} (he : ∀ e ∈ es, L.Evaluates l start e) :
    L.Evaluates l start (.logical p op es) := by
  intro w s hw hs
  refine h.located L.setting.module _ (h.bind (h.evalLogical op he hw hs) fun _ _ _ hts => ?_)
  exact h.pure (h.closed.union hts)

theorem evaluates_comparison {rs : List (CompareOp × Expr)} (hl : L.Evaluates l start left)
    (hr : ∀ r ∈ rs, L.Evaluates l start r.2) : L.Evaluates l start (.comparison p left rs) := by
  intro w s hw hs
  refine h.located L.setting.module _ (h.bind (h.forcedEval hl _ hw hs) fun w₁ t hw₁ ht => ?_)
  refine h.bind (h.evalCompared hr ht (h.trans hw hw₁) (h.at_later hw₁ hs)) fun _ _ _ hts => ?_
  exact h.pure (h.chained hts)

theorem evaluates_conditional (ht : L.Evaluates l start test) (hb : L.Evaluates l start body)
    (ho : L.Evaluates l start otherwise) : L.Evaluates l start (.conditional p test body otherwise) := by
  intro w s hw hs
  refine h.located L.setting.module _ (h.bind (h.forcedEval ht _ hw hs) fun w₁ t hw₁ _ => ?_)
  refine h.bind (h.narrowed (h.at_later hw₁ hs)) fun w₂ n hw₂ hn => ?_
  have hw₂ := h.trans hw₁ hw₂
  have hends := hn.given t.truth?
  refine h.bind (h.forcedIn hb (h.trans hw hw₂) hends.whenTrue) fun w₃ first hw₃ hfirst => ?_
  have hends := h.ends_later hw₃ hends
  refine h.bind (h.forcedIn ho (h.trans hw (h.trans hw₂ hw₃)) hends.whenFalse) fun _ second _ hsecond => ?_
  refine h.pure (h.closed.union (List.forall_mem_append.mpr ⟨fun u hu => ?_, fun u hu => ?_⟩))
  · exact hfirst u (Option.mem_toList.mp hu)
  · exact hsecond u (Option.mem_toList.mp hu)

theorem evaluates_member (attr : String) (he : L.Evaluates l start e) : L.Evaluates l start (.member p e attr) := by
  intro w s hw hs
  refine h.located L.setting.module _ (h.bind (he w s hw hs) fun w₁ v _ hv => ?_)
  split
  · exact h.pure trivial
  · split
    · next t ht =>
      have hk : L.Holds t := by
        cases v with
        | type u =>
          obtain rfl : u = t := by cases u <;> simp_all [Value.type?]
          exact hv
        | _ => simp [Value.type?] at ht
      exact h.memberOf hk attr _ _
    · exact h.pure h.closed.unknown

theorem evaluates_sliced {lower upper step : Option Expr} {q : Extent} (he : L.Evaluates l start e)
    (hb : ∀ c ∈ lower.toList ++ upper.toList ++ step.toList, L.Evaluates l start c) :
    L.Evaluates l start (.subscript p e (.slice q lower upper step)) := by
  intro w s hw hs
  have hbound {b : Option Expr} (hsub : ∀ c, b = some c → c ∈ lower.toList ++ upper.toList ++ step.toList)
      {w' : L.World} (hw' : L.later w w') :
      L.Judge w' (fun i => (L.machine i).evalBound b (L.number i s)) fun _ _ => True :=
    h.evalBound (fun c hc => hb c (hsub c hc)) (h.trans hw hw') (h.at_later hw' hs)
  refine h.located L.setting.module _ (h.bind (h.forcedEval he _ hw hs) fun w₁ t hw₁ ht => ?_)
  refine h.bind (hbound (by simp +contextual) hw₁) fun w₂ first hw₂ _ => ?_
  refine h.bind (hbound (by simp +contextual) (h.trans hw₁ hw₂)) fun w₃ last hw₃ _ => ?_
  refine h.bind (hbound (by simp +contextual) (h.trans hw₁ (h.trans hw₂ hw₃))) fun _ stride _ _ => ?_
  refine h.bind (P := fun _ => L.Holds) (h.liftFault (h.closed.sliced _ ht)) fun _ _ _ hu => h.pure hu

theorem evaluates_subscript {index : Expr} (hslice : ∀ q lower upper step, index ≠ .slice q lower upper step)
    (he : L.Evaluates l start e) (hi : L.Evaluates l start index) : L.Evaluates l start (.subscript p e index) := by
  intro w s hw hs
  simp only [Machine.eval_subscript _ p e hslice]
  refine h.located L.setting.module _ (h.bind (h.forcedEval he _ hw hs) fun w₁ t hw₁ ht => ?_)
  refine h.bind (h.forcedEval hi _ (h.trans hw hw₁) (h.at_later hw₁ hs)) fun _ u _ _ => ?_
  exact h.bind (h.itemOf ht u _) fun _ _ _ hr => h.pure hr

theorem evaluates_call {f : Expr} {as : List Expr} {ks : List (Keyword Expr)} (j : L.Jumps l start)
    (hf : L.Evaluates l start f) (ha : ∀ e ∈ as, L.Evaluates l start e)
    (hk : ∀ k ∈ ks, L.Evaluates l start k.value) : L.Evaluates l start (.call p f as ks) := by
  intro w s hw hs
  refine h.located L.setting.module _ (h.bind (hf w s hw hs) fun w₁ callee hw₁ hcallee => ?_)
  have hw := h.trans hw hw₁
  have hs := h.at_later hw₁ hs
  refine h.bind (h.evalArgs ha hw hs) fun w₂ (args, loose) hw₂ hargs => ?_
  refine h.bind (h.evalKeywords hk (h.trans hw hw₂) (h.at_later hw₂ hs)) fun w₃ (keywords, spread) hw₃ hkeywords => ?_
  have hargs := fun v hv => h.fits_later hw₃ (hargs v hv)
  have hw₃ := h.trans hw₂ hw₃
  exact h.call j (h.trans hw hw₃) hargs (Bindings.forall_mem_ofPairs hkeywords) (h.fits_later hw₃ hcallee) _ _
    (h.at_later hw₃ hs)

theorem evaluates_comprehension {gs : List (Generator Expr)} (he : L.Evaluates l start e)
    (hg : ∀ g ∈ gs, L.Assigns l start g.target ∧ L.Evaluates l start g.source ∧
      ∀ e ∈ g.conditions, L.Evaluates l start e) : L.Evaluates l start (.comprehension p e gs) := by
  intro w s hw hs
  refine h.located L.setting.module _ (h.bindAs (h.copyScope hs) fun w₁ inner hw₁ hinner => ?_)
  refine h.bindAs (h.evalGenerators hg (h.trans hw hw₁) hinner) fun w₂ o hw₂ ho => ?_
  cases o with
  | none => exact h.pure (h.closed.array.mpr h.closed.never)
  | some inner =>
    refine h.bind (h.forcedEval he _ (h.trans hw (h.trans hw₁ hw₂)) (ho inner rfl)) fun _ _ _ ht => ?_
    exact h.pure (h.closed.array.mpr ht)

theorem evaluates_dictComprehension {key value : Expr} {gs : List (Generator Expr)} (hk : L.Evaluates l start key)
    (hv : L.Evaluates l start value) (hg : ∀ g ∈ gs, L.Assigns l start g.target ∧ L.Evaluates l start g.source ∧
      ∀ e ∈ g.conditions, L.Evaluates l start e) : L.Evaluates l start (.dictComprehension p key value gs) := by
  intro w s hw hs
  refine h.located L.setting.module _ (h.bindAs (h.copyScope hs) fun w₁ inner hw₁ hinner => ?_)
  refine h.bindAs (h.evalGenerators hg (h.trans hw hw₁) hinner) fun w₂ o hw₂ ho => ?_
  cases o with
  | none => exact h.pure (h.closed.array.mpr h.closed.never)
  | some inner =>
    have hw₂ := h.trans hw (h.trans hw₁ hw₂)
    refine h.bind (h.forcedEval hk _ hw₂ (ho inner rfl)) fun w₃ _ hw₃ _ => ?_
    refine h.bind (h.forcedEval hv _ (h.trans hw₂ hw₃) (h.at_later hw₃ (ho inner rfl))) fun _ _ _ _ => ?_
    exact h.pure h.closed.unknown

theorem evaluates_lambda {params : Params Expr} (hc : L.Closes l params) :
    L.Evaluates l start (.lambda p params body) := by
  intro w s hw hs
  refine h.located L.setting.module _ (h.bindAs (h.copyScope hs) fun _ captured _ hcaptured => ?_)
  exact h.newClosure (c := ⟨"<lambda>", params, [.returns body.pos (some body)], captured⟩) hc hcaptured

theorem evaluates_display {es : List Expr} (he : ∀ e ∈ es, L.Evaluates l start e)
    (hi : ∀ m : Machine, ∀ s, m.eval e s = Symbolic.located m.module e.pos (do
      return .type (.array (.union (← m.evalItems es s))))) : L.Evaluates l start e := by
  intro w s hw hs
  simp only [hi]
  refine h.located L.setting.module _ (h.bind (h.evalItems he hw hs) fun _ _ _ hts => ?_)
  exact h.pure (h.closed.array.mpr (h.closed.union hts))

theorem evaluates_assign {name : String} (he : L.Evaluates l start e) : L.Evaluates l start (.assign p name e) := by
  intro w s hw hs
  refine h.located L.setting.module _ (h.bind (he w s hw hs) fun w₁ v hw₁ hv => ?_)
  exact h.bind (h.assignName name (h.at_later hw₁ hs) hv) fun _ _ hw₂ _ => h.pure (h.fits_later hw₂ hv)

theorem unpackInto {es : List Expr} (he : ∀ e ∈ es, L.Assigns l start e.spread) {w : L.World} {s : Nat} {v : Value}
    (hw : L.later start w) (hs : L.At w l s) (hv : L.Fits w l v) :
    L.Judge w (fun i => do
      let t ← (L.machine i).force v p
      let types ← Symbolic.unpack (L.machine i).module p t (es.map Expr.isStarred)
      (L.machine i).assignEach es types (L.number i s)) fun _ _ => True := by
  refine h.bind (h.force p hv) fun w₁ t hw₁ ht => h.bind (h.unpack ht p _) fun w₂ types hw₂ htypes => ?_
  have hw₂ := h.trans hw₁ hw₂
  exact h.assignEach he htypes (h.trans hw hw₂) (h.at_later hw₂ hs)

theorem assigns_subscript {index : Expr} (he : L.Evaluates l start e) (hi : L.Evaluates l start index) :
    L.Assigns l start (.subscript p e index) := by
  intro w s v hw hs hv
  refine h.bind (h.force p hv) fun w₁ value hw₁ hvalue => ?_
  refine h.bind (h.forcedEval he _ (h.trans hw hw₁) (h.at_later hw₁ hs)) fun w₂ container hw₂ hcontainer => ?_
  have hw₂ := h.trans hw₁ hw₂
  refine h.bind (h.forcedEval hi _ (h.trans hw hw₂) (h.at_later hw₂ hs)) fun w₃ key hw₃ _ => ?_
  split
  · dsimp only [machine_module]
    exact h.throw nofun
  · split
    · exact h.storeItem hcontainer hvalue key _ (h.at_later (h.trans hw₂ hw₃) hs)
    · exact h.pure trivial

theorem assigns_member (attr : String) (he : L.Evaluates l start e) : L.Assigns l start (.member p e attr) := by
  intro w s v hw hs hv
  exact h.bind (he w s hw hs) fun _ _ _ _ => h.pure trivial

theorem assigns_starred (he : L.Assigns l start e) : L.Assigns l start (.starred p e) := by
  intro w s v hw hs hv
  refine h.bind (h.force p hv) fun w₁ item hw₁ hi => ?_
  exact he w₁ s (.type (.array item)) (h.trans hw hw₁) (h.at_later hw₁ hs) (h.closed.array.mpr hi)

end

theorem evaluates_and_assigns (j : L.Jumps l start) (e : Expr) :
    L.Admits l e → L.Evaluates l start e ∧ L.Assigns l start e := by
  induction e using Expr.induct_operands with
  | step e ih =>
    intro ha
    have good {c : Expr} (hc : c ∈ e.operands) := (ih c hc).1 (h.operand ha hc)
    have inner {c d : Expr} (hc : c ∈ e.operands) (hd : d ∈ c.operands) :=
      (ih c hc).2 d hd (h.operand (h.operand ha hc) hd)
    have spread {c : Expr} (hc : c ∈ e.operands) : L.Assigns l start c.spread := by
      cases c with
      | starred p d => exact (inner hc (List.mem_singleton_self d)).2
      | _ => exact (good hc).2
    have unknown (hi : ∀ m : Machine, ∀ s, m.eval e s = Symbolic.located m.module e.pos (Pure.pure .unknown)) :
        L.Evaluates l start e := by
      intro w s _ _
      simp only [hi]
      exact h.located L.setting.module _ (h.pure h.closed.unknown)
    have generators {gs : List (Generator Expr)}
        (hg : ∀ d ∈ gs.flatMap fun g => g.target :: g.source :: g.conditions,
          L.Evaluates l start d ∧ L.Assigns l start d) :
        ∀ g ∈ gs, L.Assigns l start g.target ∧ L.Evaluates l start g.source ∧
          ∀ e ∈ g.conditions, L.Evaluates l start e := by
      intro g hm
      have part {d : Expr} (hd : d ∈ g.target :: g.source :: g.conditions) := hg d (List.mem_flatMap.mpr ⟨g, hm, hd⟩)
      exact ⟨(part (by simp)).2, (part (by simp)).1, fun d hd => (part (by simp [hd])).1⟩
    constructor
    · cases e with
      | constant p c => exact h.evaluates_constant c
      | name p id => exact fun w s hw hs => h.located L.setting.module _ (h.lookup j hw hs ha)
      | binary p op left right =>
        exact h.evaluates_binary op (good (by simp [Expr.operands])).1 (good (by simp [Expr.operands])).1
      | unary p op c => exact h.evaluates_unary op (good (by simp [Expr.operands])).1
      | logical p op es => exact h.evaluates_logical op fun c hc => (good hc).1
      | comparison p left rs =>
        refine h.evaluates_comparison (good (by simp [Expr.operands])).1 fun r hr => ?_
        exact (good (List.mem_cons_of_mem _ (List.mem_map_of_mem hr))).1
      | conditional p test body otherwise =>
        exact h.evaluates_conditional (good (by simp [Expr.operands])).1 (good (by simp [Expr.operands])).1
          (good (by simp [Expr.operands])).1
      | call p f as ks =>
        refine h.evaluates_call j (good (by simp [Expr.operands])).1 (fun c hc => ?_) fun k hk => ?_
        · exact (good (by simp [Expr.operands, hc])).1
        · exact (good (List.mem_cons_of_mem _ (List.mem_append_right _ (List.mem_map_of_mem hk)))).1
      | member p c attr => exact h.evaluates_member attr (good (by simp [Expr.operands])).1
      | subscript p c index =>
        have hc := (good (c := c) (by simp [Expr.operands])).1
        have hi := (good (c := index) (by simp [Expr.operands])).1
        cases index with
        | slice q lower upper step =>
          exact h.evaluates_sliced hc fun d hd => (inner (c := .slice q lower upper step) (by simp [Expr.operands]) hd).1
        | _ => exact h.evaluates_subscript (by simp) hc hi
      | tuple p es =>
        intro w s hw hs
        refine h.located L.setting.module _ ?_
        exact h.bind (h.evalTuple (fun c hc => (good hc).1) false (List.forall_mem_nil _) hw hs) fun _ _ _ ht => h.pure ht
      | list p es | set p es => exact h.evaluates_display (fun c hc => (good hc).1) fun _ _ => rfl
      | dict p es =>
        intro w s hw hs
        have entries : ∀ e ∈ es, (∀ k, e.1 = some k → L.Evaluates l start k) ∧ L.Evaluates l start e.2 := by
          refine fun e he => ⟨fun k hk => ?_, ?_⟩
          · exact (good (List.mem_flatMap.mpr ⟨e, he, by simp [hk]⟩)).1
          · exact (good (List.mem_flatMap.mpr ⟨e, he, by simp⟩)).1
        refine h.located L.setting.module _ ?_
        exact h.bind (h.evalEntries entries true (List.forall_mem_nil _) hw hs) fun _ _ _ ht => h.pure ht
      | template p es =>
        intro w s hw hs
        refine h.located L.setting.module _ ?_
        refine h.bind (h.evalParts (fun q v spec hm => ?_) hw hs) fun _ _ _ _ => h.pure (h.closed.primitive _)
        exact (inner hm (List.mem_singleton_self v)).1
      | comprehension p c gs =>
        refine h.evaluates_comprehension (good (by simp [Expr.operands])).1 ?_
        exact generators fun d hd => good (List.mem_cons_of_mem _ hd)
      | dictComprehension p key value gs =>
        refine h.evaluates_dictComprehension (good (by simp [Expr.operands])).1 (good (by simp [Expr.operands])).1 ?_
        exact generators fun d hd => good (List.mem_cons_of_mem _ (List.mem_cons_of_mem _ hd))
      | lambda p params body => exact h.evaluates_lambda (h.lambda ha)
      | assign p name c => exact h.evaluates_assign (good (by simp [Expr.operands])).1
      | starred p c =>
        intro w s hw hs
        exact h.located L.setting.module _ ((good (by simp [Expr.operands])).1 w s hw hs)
      | slice | formatted | other => exact unknown fun _ _ => rfl
    · cases e with
      | name p id => exact fun w s v _ hs hv => h.assignName id hs hv
      | member p c attr => exact h.assigns_member attr (good (by simp [Expr.operands])).1
      | subscript p c index =>
        exact h.assigns_subscript (good (by simp [Expr.operands])).1 (good (by simp [Expr.operands])).1
      | tuple p es | list p es => exact fun w s v hw hs hv => h.unpackInto (fun c hc => spread hc) hw hs hv
      | starred p c => exact h.assigns_starred (good (by simp [Expr.operands])).2
      | _ => exact fun w s v _ _ _ => h.pure (a := ()) trivial

end Lawful

end RunLogic

end Symbolic

end Casewise
