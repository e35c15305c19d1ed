import Casewise.Proofs.Symbolic.Logic

namespace Casewise.Symbolic.RunLogic.Lawful

variable {ι : Type} {L : RunLogic ι} (h : L.Lawful) {w : L.World} {l : L.Level}

include h

theorem memberOfSingle {t : Ty} (ht : L.Holds t) (name : String) (target : Option String) (pos : Extent) :
    L.Judge w (fun i => (L.machine i).memberOfSingle t name target pos) fun w v => L.Fits w l v := by
  have hmissing : L.Judge w (fun _ => Symbolic.liftFault (do Fault.of (.member (← t.name) name)))
      fun w v => L.Fits w l v := h.liftFault (yields_bind fun _ => yields_error)
  unfold Machine.memberOfSingle
  split
  · exact h.pure h.closed.unknown
  · exact h.pure h.closed.never
  · next fields =>
    split
    · next f hf => exact h.pure (h.closed.field ht _ (Bindings.mem_of_get? hf))
    · split
      · exact h.pure ht
      · exact h.bind (h.warnMissingField name _ pos) fun _ _ _ _ => h.pure h.closed.unknown
  · dsimp only
    split
    · exact h.pure ht
    · split
      · exact hmissing
      · split
        · split
          · next hv => exact h.pure (h.closed.dataMember ht hv)
          · exact hmissing
        · exact h.pure (h.closed.primitive _)

theorem memberOf {t : Ty} (ht : L.Holds t) (name : String) (target : Option String) (pos : Extent) :
    L.Judge w (fun i => (L.machine i).memberOf t name target pos) fun w v => L.Fits w l v := by
  unfold Machine.memberOf
  split
  · next ms =>
    have hms : L.Judge w (fun i => ms.mapM fun m => (L.machine i).memberOfSingle m name target pos)
        fun w vs => ∀ v ∈ vs, L.Fits w l v :=
      h.mapM (fun hw hv => h.fits_later hw hv) fun _ _ m hm =>
        h.memberOfSingle (h.closed.member ht m hm) name target pos
    refine h.bind hms fun w₁ found _ hfound => ?_
    split
    · exact h.pure ht
    · exact h.pure (h.closed.union (List.forall_mem_map.mpr fun v hv => (h.values w₁ l).rawType (hfound v hv)))
  · exact h.memberOfSingle ht name target pos

theorem itemOfSingle {t : Ty} (ht : L.Holds t) (index : Ty) (pos : Extent) :
    L.Judge w (fun i => (L.machine i).itemOfSingle t index pos) fun _ t => L.Holds t := by
  unfold Machine.itemOfSingle
  split
  · exact h.pure h.closed.unknown
  · exact h.pure h.closed.never
  · next fields =>
    split
    · next key _ =>
      split
      · next f hf => exact h.pure (h.closed.field ht _ (Bindings.mem_of_get? hf))
      · exact h.bind (h.warnMissingField key _ pos) fun _ _ _ _ => h.pure h.closed.unknown
    · refine h.pure ?_
      split
      · exact h.closed.unknown
      · exact h.closed.union (List.forall_mem_map.mpr (h.closed.field ht))
  · exact h.liftFault (h.closed.indexed index ht)

theorem itemOf {t : Ty} (ht : L.Holds t) (index : Ty) (pos : Extent) :
    L.Judge w (fun i => (L.machine i).itemOf t index pos) fun _ t => L.Holds t := by
  unfold Machine.itemOf
  split
  · next ms =>
    have hms : L.Judge w (fun i => ms.mapM fun m => (L.machine i).itemOfSingle m index pos)
        fun _ ts => ∀ t ∈ ts, L.Holds t :=
      h.mapM (fun _ => id) fun _ _ m hm => h.itemOfSingle (h.closed.member ht m hm) index pos
    exact h.bind hms fun _ _ _ hts => h.pure (h.closed.union hts)
  · exact h.itemOfSingle ht index pos

theorem callMethod {receiver : Ty} (hr : L.Holds receiver) (name : String) (target : Option String) {args : List Ty}
    (ha : ∀ t ∈ args, L.Holds t) {s : Nat} (hs : L.At w l s) :
    L.Judge w (fun i => Machine.callMethod receiver name target args (L.number i s)) fun _ t => L.Holds t := by
  unfold Machine.callMethod
  have hmembers : L.Judge w (fun _ => Symbolic.liftFault receiver.sortedMembers) fun _ ms => ∀ m ∈ ms, L.Holds m :=
    h.liftFault (h.closed.sortedMembers hr)
  refine h.bind hmembers fun w₁ ms hw₁ hms => ?_
  have hon (w₂ : L.World) (hw₂ : L.later w₁ w₂) (m : Ty) (hm : m ∈ ms) :
      L.Judge w₂ (fun i => Machine.callMethodOn name target args (L.number i s) m) fun _ t => L.Holds t := by
    unfold Machine.callMethodOn
    have hresult : L.Judge w₂ (fun _ => Symbolic.liftFault (m.methodResult name args))
        fun _ r => Ty.MethodMeets L.Holds r :=
      h.liftFault (h.closed.methodResult ha name (hms m hm))
    refine h.bind hresult fun w₃ r hw₃ ⟨hreturns, hchanged⟩ => ?_
    split
    · next x u hu =>
      have hs := h.at_later (h.trans hw₁ (h.trans hw₂ hw₃)) hs
      refine h.bind (h.changeEnv hs fun env he => ?_) fun _ _ _ _ => h.pure hreturns
      split
      · exact he.set (v := .type u) (hchanged u hu) x
      · exact he
    · exact h.pure hreturns
  exact h.bind (h.mapM (fun _ => id) hon) fun _ _ _ hts => h.pure (h.closed.union hts)

theorem forceAll {vs : List Value} (hv : ∀ v ∈ vs, L.Fits w l v) (pos : Extent) :
    L.Judge w (fun i => vs.mapM fun v => (L.machine i).force v pos) fun _ ts => ∀ t ∈ ts, L.Holds t :=
  h.mapM (fun _ => id) fun _ hw v hm => h.force pos (h.fits_later hw (hv v hm))

theorem callBuiltin (name : String) {args : List Ty} {keywords : Env} (ha : ∀ t ∈ args, L.Holds t)
    (hk : keywords.All (L.Fits w l)) (pos : Extent) :
    L.Judge w (fun i => (L.machine i).callBuiltin name args keywords pos) fun _ t => L.Holds t := by
  unfold Machine.callBuiltin
  split
  · exact h.pure h.closed.unknown
  · have hgiven : Env.All (L.Fits w l) (if name == "dict" then keywords else []) := by
      split
      · exact hk
      · exact nofun
    refine h.bind (h.mapM (P := fun _ f => L.Holds f.2) (fun _ => id) fun w' hw b hb => ?_) fun _ _ _ hf => ?_
    · exact h.bind (h.force pos (h.fits_later hw (hgiven b hb))) fun _ _ _ ht => h.pure ht
    · exact h.computed (h.raw.builtin (fun t ht => h.raw_of_holds (ha t ht)) name fun f hm => h.raw_of_holds (hf f hm))

theorem resultOf {o : Machine.Outcome} (ho : L.Holds o.returns) :
    L.Judge w (fun _ => Machine.resultOf o) fun w v => L.Fits w l v := by
  unfold Machine.resultOf
  refine h.bind (h.forM fun _ _ name _ => h.recordRaise name) fun _ _ _ _ => ?_
  split
  · exact h.throw nofun
  · exact h.pure ho

section

variable (k : L.Tracks) {start : L.World}
  (body : ∀ {w env depth} (body : List Stmt), L.later start w → L.Depth w depth → depth ≤ L.setting.limits.depth →
    env.All (L.Fits w L.free) →
    L.Judge w (fun i => (L.machine i).runBody body env depth) fun _ frame => ∀ t ∈ frame.returns, L.Holds t)
  (hw : L.later start w)

include k body hw

theorem settle (statements : List Stmt) (call : Call) {depth : Int} (hd : L.Depth w depth)
    (hle : depth ≤ L.setting.limits.depth) (he : call.env.All (L.Fits w L.free)) (n : Nat) {assumed : Ty}
    (ha : L.Holds assumed) (last : Machine.Outcome) :
    L.Judge w (fun i => (L.machine i).settle statements call depth n assumed last) fun _ o => L.Holds o.returns := by
  induction n generalizing w assumed last with
  | zero => exact h.pure h.closed.unknown
  | succ n ih =>
    unfold Machine.settle
    refine h.bind (k.assume call ha) fun w₁ _ hw₁ _ => ?_
    have hbody := body statements (h.trans hw hw₁) (h.depth_later hw₁ hd) hle (h.all_later hw₁ he)
    refine h.bind hbody fun w₂ frame hw₂ hreturns => h.bind (k.hasReentered call) fun w₃ recursive hw₃ _ => ?_
    have hw₃ := h.trans hw₁ (h.trans hw₂ hw₃)
    have hreturned :
        L.Holds (if recursive then Ty.union [assumed, Ty.union frame.returns] else Ty.union frame.returns) := by
      split
      · refine h.closed.union (List.forall_mem_cons.mpr ⟨ha, ?_⟩)
        exact List.forall_mem_singleton.mpr (h.closed.union hreturns)
      · exact h.closed.union hreturns
    dsimp only
    generalize (if recursive then Ty.union [assumed, Ty.union frame.returns] else Ty.union frame.returns) = returned
      at hreturned ⊢
    split
    · exact h.pure hreturned
    · exact ih (h.trans hw hw₃) (h.depth_later hw₃ hd) (h.all_later hw₃ he) hreturned _

theorem callFunction {env : Env} {depth : Int} (f : FunctionDef Stmt) (hd : L.Depth w depth)
    (he : env.All (L.Fits w l)) :
    L.Judge w (fun i => (L.machine i).callFunction f env depth) fun _ o => L.Holds o.returns := by
  unfold Machine.callFunction
  refine h.bind (k.assumed? _) fun w₁ found hw₁ hfound => ?_
  split
  · next t => exact h.bind (k.reenter _) fun _ _ _ _ => h.pure (hfound t rfl)
  · refine judge_ite (c := L.setting.limits.depth < depth) (fun _ => h.pure h.closed.unknown) fun hle => ?_
    refine judge_ite (c := L.setting.limits.rounds ≤ 0) (fun _ => h.throw nofun) fun _ => ?_
    have he := h.all_later hw₁ (h.all_free he)
    have hsettled := h.settle k body (h.trans hw hw₁) f.body ⟨f.name, env⟩ (h.depth_later hw₁ hd) (Int.not_lt.mp hle) he
      L.setting.limits.rounds.toNat h.closed.never ⟨.unknown, [], true⟩
    exact h.bind hsettled fun w₂ o _ ho => h.bind k.finish fun _ _ _ _ => h.pure ho

omit hw in
theorem jumps
    (constant : ∀ {w name e}, L.later start w → L.setting.module.constants.get? name = some e →
      L.Judge w (fun i => (L.machine i).constant name e) fun _ t => L.Holds t)
    (default : ∀ {w params e}, L.later start w → L.Closes l params → e ∈ params.defaultValues →
      L.Judge w (fun i => (L.machine i).outside e) fun _ t => L.Holds t) : L.Jumps l start :=
  ⟨constant, default, body, fun f hw hd he => h.callFunction k body hw f hd he⟩

omit k hw in
theorem jumps_of_calls (evaluate : ∀ {w} e s, L.later start w → L.At w l s →
    L.Judge w (fun i => L.evaluate i e (L.number i s)) fun w v => L.Fits w l v)
    (call : ∀ {w env depth} (f : FunctionDef Stmt), L.later start w → L.Depth w depth → env.All (L.Fits w l) →
      L.Judge w (fun i => (L.machine i).callFunction f env depth) fun _ o => L.Holds o.returns) : L.Jumps l start := by
  have outside {w : L.World} (e : Expr) (hw : L.later start w) :
      L.Judge w (fun i => (L.machine i).outside e) fun _ t => L.Holds t :=
    h.outside fun _ s hw₁ hs => evaluate e s (h.trans hw hw₁) hs
  exact ⟨fun hw _ => h.constantOf fun _ hw₁ => outside _ (h.trans hw hw₁), fun hw _ _ => outside _ hw, body, call⟩

omit hw in
theorem jumps_of_evaluate (evaluate : ∀ {w} e s, L.later start w → L.At w l s →
    L.Judge w (fun i => L.evaluate i e (L.number i s)) fun w v => L.Fits w l v) : L.Jumps l start :=
  h.jumps_of_calls body evaluate fun f hw hd he => h.callFunction k body hw f hd he

end

section

variable {start : L.World} (j : L.Jumps l start) (hw : L.later start w)

include j hw

theorem lookup {p : Extent} {name : String} {s : Nat} (hs : L.At w l s) (ha : L.Admits l (.name p name)) :
    L.Judge w (fun i => (L.machine i).lookup name (L.number i s)) fun w v => L.Fits w l v := by
  unfold Machine.lookup
  refine h.bind (h.envOf hs) fun w₁ env hw₁ he => ?_
  split
  · next v hv => exact h.pure (he.get? hv)
  · refine judge_ite (c := (L.setting.mocks.resolve? name).isSome = true) (fun _ => h.pure trivial) fun hm => ?_
    dsimp only [machine_module]
    split
    · exact h.pure (h.name ha (by simpa using hm))
    · refine judge_ite (c := L.setting.module.classes.contains name = true) (fun _ => ?_) fun _ => ?_
      · exact h.pure ((h.values w₁ l).functionType 0)
      · split
        · next e he => exact h.bind (j.constant (h.trans hw hw₁) he) fun _ _ _ ht => h.pure ht
        · exact judge_ite (fun _ => h.pure trivial) fun _ => h.pure trivial

theorem packed {params : Params Expr} (hc : L.Closes l params) {entries : Bindings (Filling Value Expr)}
    (he : ∀ b ∈ entries, b.2.Meets (L.Fits w l) (· ∈ params.defaultValues)) :
    L.Judge w (fun i => (L.machine i).packing.values entries) fun w env => Env.All (L.Fits w l) env := by
  induction entries generalizing w with
  | nil => exact h.pure nofun
  | cons b entries ih =>
    obtain ⟨hb, hbs⟩ := List.forall_mem_cons.mp he
    obtain ⟨name, filling⟩ := b
    have hvalue : L.Judge w (fun i => (L.machine i).packing.value filling) fun w v => L.Fits w l v := by
      cases filling with
      | given v => exact h.pure hb
      | default e => exact h.bind (j.default hw hc hb) fun _ _ _ ht => h.pure ht
      | rest vs =>
        exact h.pure (h.closed.tuple.mpr (List.forall_mem_map.mpr fun v hv => (h.values w l).asType (hb v hv)))
      | keywordRest bs =>
        exact h.pure (h.closed.record (List.forall_mem_map.mpr fun b hm => (h.values w l).asType (hb b hm)))
    refine h.bind hvalue fun w₁ v hw₁ hv => ?_
    have hrest := ih (h.trans hw hw₁) fun b hm => (hbs b hm).imp fun _ => h.fits_later hw₁
    exact h.bind hrest fun w₂ env hw₂ henv => h.pure (List.forall_mem_cons.mpr ⟨h.fits_later hw₂ hv, henv⟩)

theorem bindArgs {params : Params Expr} (hc : L.Closes l params) (name : String) {args : List Value} {keywords : Env}
    (ha : ∀ v ∈ args, L.Fits w l v) (hk : keywords.All (L.Fits w l)) (refuse : ArityError → Stop)
    (hr : ∀ e, refuse e ≠ .exhausted) :
    L.Judge w (fun i => (L.machine i).bind params name args keywords refuse) fun w env => env.All (L.Fits w l) := by
  unfold Machine.bind
  split
  · next filled hf =>
    have he := Params.yields_fill (p := params) (E := (· ∈ params.defaultValues)) (fun _ => id) ha hk filled hf
    refine h.bind (h.packed j hw hc he) fun w₁ env _ henv => ?_
    split
    · exact h.throw (hr _)
    · exact h.pure henv
  · exact h.throw (hr _)

variable {args : List Value} {keywords : Env} (ha : ∀ v ∈ args, L.Fits w l v) (hk : keywords.All (L.Fits w l))

include ha hk

theorem callNamed {name : String} (hn : L.Knows l name) :
    L.Judge w (fun i => (L.machine i).callNamed name args keywords) fun w v => L.Fits w l v := by
  unfold Machine.callNamed
  simp only [machine_module]
  split
  · exact h.throw nofun
  · next f hf =>
    have hwidened : L.Judge w (fun _ => Machine.widenRecursive name args keywords)
        fun w p => (∀ v ∈ p.1, L.Fits w l v) ∧ p.2.All (L.Fits w l) := by
      unfold Machine.widenRecursive
      refine h.bind (h.isRunning name) fun w₁ _ hw₁ _ => ?_
      have hvalues := h.values w₁ l
      split
      · refine h.pure ⟨List.forall_mem_map.mpr fun v hv => ?_, List.forall_mem_map.mpr fun b hb => ?_⟩
        · exact hvalues.widen (h.fits_later hw₁ (ha v hv))
        · exact hvalues.widen (h.fits_later hw₁ (hk b hb))
      · exact h.pure ⟨fun v hv => h.fits_later hw₁ (ha v hv), h.all_later hw₁ hk⟩
    refine h.bind hwidened fun w₁ (args, keywords) hw₁ ⟨ha, hk⟩ => ?_
    have hw₁ := h.trans hw hw₁
    refine h.bind (h.bindArgs j hw₁ (h.function hn hf) _ ha hk _ nofun) fun w₂ env hw₂ he => ?_
    refine h.bind h.nextDepth fun w₃ depth hw₃ hd => ?_
    have hcall := j.call f (h.trans hw₁ (h.trans hw₂ hw₃)) hd (h.all_later hw₃ he)
    exact h.bind hcall fun _ _ _ ho => h.resultOf ho

theorem callClosure {id : Nat} (hm : L.Made w l id) :
    L.Judge w (fun i => (L.machine i).callClosure id args keywords) fun w v => L.Fits w l v := by
  unfold Machine.callClosure
  refine h.bind h.nextDepth fun w₁ depth hw₁ hd => ?_
  refine judge_ite (c := L.setting.limits.depth < depth) (fun _ => h.pure h.closed.unknown) fun hle => ?_
  refine h.bindAs (h.closure? (h.made_later hw₁ hm)) fun w₂ found hw₂ hfound => ?_
  have hd := h.depth_later hw₂ hd
  have hw₂ := h.trans hw₁ hw₂
  cases found with
  | none => exact h.pure h.closed.unknown
  | some c =>
    have hbound := h.bindArgs j (h.trans hw hw₂) (hfound c rfl) c.name (fun v hv => h.fits_later hw₂ (ha v hv))
      (h.all_later hw₂ hk) (fun e => .undefined (.arity e) none) nofun
    refine h.bind hbound fun w₃ bound hw₃ hbound => h.bind (h.envOf_free c.scope) fun w₄ env hw₄ henv => ?_
    have hstart := henv.update (h.all_later hw₄ (h.all_free hbound))
    have hw₄ := h.trans hw₃ hw₄
    have hbody := j.body c.body (h.trans hw (h.trans hw₂ hw₄)) (h.depth_later hw₄ hd) (Int.not_lt.mp hle) hstart
    exact h.bind hbody fun _ _ _ hreturns => h.resultOf (h.closed.union hreturns)

theorem call {f : Value} (hf : L.Fits w l f) (loose : Bool) (pos : Extent) {s : Nat} (hs : L.At w l s) :
    L.Judge w (fun i => (L.machine i).call f args keywords loose pos (L.number i s)) fun w v => L.Fits w l v := by
  unfold Machine.call
  dsimp only [machine_setting]
  cases f with
  | function name _ =>
    dsimp only
    split
    · exact h.pure h.closed.unknown
    · exact h.callNamed j hw ha hk hf
  | closure id _ =>
    dsimp only
    split
    · exact h.pure h.closed.unknown
    · exact h.callClosure j hw ha hk hf
  | builtin name =>
    refine h.bind (h.forceAll ha pos) fun w₁ types hw₁ ht => ?_
    exact h.bind (h.callBuiltin name ht (h.all_later hw₁ hk) pos) fun _ _ _ ht => h.pure ht
  | method receiver name target =>
    refine h.bind (h.forceAll ha pos) fun w₁ types hw₁ ht => ?_
    exact h.bind (h.callMethod hf name target ht (h.at_later hw₁ hs)) fun _ _ _ ht => h.pure ht
  | external written path =>
    dsimp only
    split
    · next hm =>
      simp only [← bind_assoc]
      exact h.bind (h.askUnmocked pos hm) fun _ _ _ _ => h.pure h.closed.unknown
    · next v hv =>
      have hmock := h.mocked hv
      refine h.bind (h.askMocked hv) fun _ _ _ _ => ?_
      split
      · next ps r hr => exact h.pure (a := Value.type r) (h.closed.function.mp (hr ▸ hmock)).1
      · exact h.pure (a := Value.type _) hmock
  | type t =>
    have hcalled := h.closed.called ((h.values w l).asType (v := .type t) hf)
    exact h.bind (P := fun _ t => L.Holds t) (h.liftFault hcalled) fun _ _ _ ht => h.pure ht

end

end Casewise.Symbolic.RunLogic.Lawful
