import Casewise.Proofs.Symbolic.Scopes

/-!
What the evaluation of an expression does to the scope it runs in. Only `:=` and the methods that change a variable
write to a scope, and a method changes the variable that its member was taken from. So whatever an expression calls, it
changes only what the names in it say.
-/

namespace Casewise

/-- The name that the expression itself assigns with `:=`, or the variable that it takes a member of. -/
def Expr.touched? : Expr → Option String
  | .assign _ x _ => some x
  | .member _ v _ => v.id?
  | _ => none

inductive Expr.Touches : Expr → String → Prop
  | own {e : Expr} {x : String} : e.touched? = some x → e.Touches x
  | operand {e c : Expr} {x : String} : c ∈ e.operands → c.Touches x → e.Touches x

def Value.Aims (N : String → Prop) : Value → Prop
  | .method _ _ (some x) => N x
  | _ => True

theorem Value.aims_true (v : Value) : v.Aims fun _ => True := by
  rcases v with _ | _ | _ | _ | ⟨_, _, _ | _⟩ | _ <;> trivial

theorem Env.aims_of_plain {N : String → Prop} {env : Env} (h : env.All fun v => Symbolic.Machine.isMethod v = false) :
    env.All (Value.Aims N) := by
  intro b hb
  have hplain := h b hb
  generalize b.2 = v at hplain
  cases v with
  | method receiver name target => cases hplain
  | _ => trivial

structure Env.Changes (N : String → Prop) (before after : Env) : Prop where
  kept : ∀ x, ¬ N x → after.get? x = before.get? x
  bound : ∀ x, before.has x = true → after.has x = true
  aims : after.All (Value.Aims N)

theorem Env.Changes.set {N : String → Prop} {before after : Env} (h : Env.Changes N before after) {x : String} (hx : N x)
    {v : Value} (hv : v.Aims N) : Env.Changes N before (Bindings.set x v after) where
  kept y hy := by
    have hne : x ≠ y := fun he => hy (he ▸ hx)
    exact (Bindings.get?_set_of_ne hne v after).trans (h.kept y hy)
  bound y hy := by
    by_cases hxy : x = y
    · simp [hxy, Bindings.has]
    · simpa only [Bindings.has, Bindings.get?_set_of_ne hxy] using h.bound y hy
  aims := h.aims.set hv x

namespace Symbolic

variable {α : Type} {N : String → Prop} {scope : Nat} {old : Array Env} {before : Env} {cfg : Setting} {n : Nat}

structure Session.Touched (N : String → Prop) (scope : Nat) (old : Array Env) (before : Env) (s : Session) : Prop where
  others : ∀ i < old.size, i ≠ scope → s.scopes[i]? = old[i]?
  own : ∃ after, s.scopes[scope]? = some after ∧ before.Changes N after

theorem preserves_any {act : Run α} : Preserves (fun _ => True) act fun _ => True :=
  fun _ _ => ⟨trivial, fun _ _ => trivial⟩

theorem Apart.touched {act : Run α} {P : α → Prop} (h : Apart act) (hP : Preserves (fun _ => True) act P) :
    Preserves (Session.Touched N scope old before) act P := by
  intro s hs
  have hkept {i : Nat} {env : Env} (hi : s.scopes[i]? = some env) : (act.run s).2.scopes[i]? = some env :=
    (h s i (Array.getElem?_eq_some_iff.mp hi).1).trans hi
  refine ⟨⟨fun i hi hne => ?_, ?_⟩, (hP s trivial).2⟩
  · have hold := hs.others i hi hne
    rw [Array.getElem?_eq_getElem hi] at hold ⊢
    exact hkept hold
  · obtain ⟨after, hafter, hchanges⟩ := hs.own
    exact ⟨after, hkept hafter, hchanges⟩

theorem Apart.touches {act : Run α} (h : Apart act) :
    Preserves (Session.Touched N scope old before) act fun _ => True :=
  h.touched preserves_any

theorem touched_changeEnv {f : Env → Env} (hf : ∀ env, before.Changes N env → before.Changes N (f env)) :
    Preserves (Session.Touched N scope old before) (changeEnv scope f) fun _ => True := by
  refine preserves_modify fun s hs => ⟨fun i hi hne => ?_, ?_⟩
  · dsimp only
    rw [Array.getElem?_modify, if_neg hne.symm]
    exact hs.others i hi hne
  · obtain ⟨after, hafter, hchanges⟩ := hs.own
    refine ⟨f after, ?_, hf after hchanges⟩
    dsimp only
    rw [Array.getElem?_modify, if_pos rfl, hafter]
    rfl

theorem touched_envOf : Preserves (Session.Touched N scope old before) (envOf scope) fun env => env.All (Value.Aims N) :=
  preserves_read fun s hs => by
    obtain ⟨after, hafter, hchanges⟩ := hs.own
    rw [hafter]
    exact hchanges.aims

theorem touched_lookup (name : String) :
    Preserves (Session.Touched N scope old before) ((machine cfg n).lookup name scope) (Value.Aims N) := by
  unfold Machine.lookup
  refine touched_envOf.bind fun env henv => ?_
  split
  · next v hv => exact preserves_pure (henv.get? hv)
  · rw [machine_module]
    split
    · exact preserves_pure trivial
    · split
      · exact preserves_pure trivial
      · split
        · exact preserves_pure trivial
        · split
          · next e he => exact (Apart.constant cfg n he).touches.bind fun _ _ => preserves_pure trivial
          · split <;> exact preserves_pure trivial

theorem aims_memberOfSingle (m : Machine) (t : Ty) (name : String) {target : Option String}
    (hmethod : ∀ t, (Value.method t name target).Aims N) (pos : Extent) :
    Preserves (fun _ => True) (m.memberOfSingle t name target pos) (Value.Aims N) := by
  have hmissing : Preserves (fun _ => True) (liftFault (do Fault.of (.member (← t.name) name))) (Value.Aims N) :=
    preserves_liftFault (yields_bind fun _ => yields_error)
  unfold Machine.memberOfSingle
  split
  · exact preserves_pure trivial
  · exact preserves_pure trivial
  · split
    · exact preserves_pure trivial
    · split
      · exact preserves_pure (hmethod _)
      · exact preserves_any.bind fun _ _ => preserves_pure trivial
  · dsimp only
    split
    · exact preserves_pure (hmethod _)
    · split
      · exact hmissing
      · split
        · split
          · exact preserves_pure trivial
          · exact hmissing
        · exact preserves_pure trivial

theorem touched_memberOf (t : Ty) (name : String) {target : Option String} (ht : ∀ x, target = some x → N x)
    (pos : Extent) :
    Preserves (Session.Touched N scope old before) ((machine cfg n).memberOf t name target pos) (Value.Aims N) := by
  have hmethod (t : Ty) : (Value.method t name target).Aims N := by
    cases target with
    | none => trivial
    | some x => exact ht x rfl
  refine (Apart.memberOf cfg n t name target pos).touched ?_
  unfold Machine.memberOf
  split
  · refine preserves_any.bind fun found _ => ?_
    split
    · exact preserves_pure (hmethod _)
    · exact preserves_pure trivial
  · exact aims_memberOfSingle _ _ _ hmethod pos

theorem aims_resultOf (o : Machine.Outcome) : Preserves (fun _ => True) (Machine.resultOf o) (Value.Aims N) := by
  unfold Machine.resultOf
  refine preserves_any.bind fun _ _ => ?_
  split
  · exact preserves_throw
  · exact preserves_pure trivial

theorem aims_call (m : Machine) (f : Value) (args : List Value) (keywords : Env) (loose : Bool) (pos : Extent)
    (scope : Nat) : Preserves (fun _ => True) (m.call f args keywords loose pos scope) (Value.Aims N) := by
  unfold Machine.call
  cases f with
  | function name _ =>
    dsimp only
    split
    · exact preserves_pure trivial
    · unfold Machine.callNamed
      split
      · exact preserves_throw
      · refine preserves_any.bind fun _ _ => preserves_any.bind fun _ _ => preserves_any.bind fun _ _ => ?_
        exact preserves_any.bind fun o _ => aims_resultOf o
  | closure id _ =>
    dsimp only
    split
    · exact preserves_pure trivial
    · unfold Machine.callClosure
      refine preserves_any.bind fun depth _ => ?_
      split
      · exact preserves_pure trivial
      · refine preserves_any.bind fun found _ => ?_
        split
        · exact preserves_pure trivial
        · refine preserves_any.bind fun _ _ => preserves_any.bind fun _ _ => ?_
          exact preserves_any.bind fun _ _ => aims_resultOf _
  | builtin name => exact preserves_any.bind fun _ _ => preserves_any.bind fun _ _ => preserves_pure trivial
  | method receiver name target =>
    exact preserves_any.bind fun _ _ => preserves_any.bind fun _ _ => preserves_pure trivial
  | external written path =>
    refine preserves_any.bind fun _ _ => ?_
    split
    · exact preserves_any.bind fun _ _ => preserves_pure trivial
    · split <;> exact preserves_pure trivial
  | type t => exact preserves_any.bind fun _ _ => preserves_pure trivial

theorem touched_callMethod (receiver : Ty) (name : String) {target : Option String} (ht : ∀ x, target = some x → N x)
    (args : List Ty) :
    Preserves (Session.Touched N scope old before) (Machine.callMethod receiver name target args scope) fun _ => True := by
  unfold Machine.callMethod
  refine (preserves_liftFault (P := fun _ => True) fun _ _ => trivial).bind fun members _ => ?_
  refine (Preserves.mapM fun t => ?_).bind fun _ _ => preserves_pure trivial
  unfold Machine.callMethodOn
  refine (preserves_liftFault (P := fun _ => True) fun _ _ => trivial).bind fun r _ => ?_
  split
  · next x u _ =>
    refine (touched_changeEnv fun env henv => ?_).bind fun _ _ => preserves_pure trivial
    split
    · exact henv.set (ht x rfl) (v := .type u) trivial
    · exact henv
  · exact preserves_pure trivial

theorem touched_call {f : Value} (hf : f.Aims N) (args : List Value) (keywords : Env) (loose : Bool) (pos : Extent) :
    Preserves (Session.Touched N scope old before) ((machine cfg n).call f args keywords loose pos scope)
      (Value.Aims N) := by
  cases f with
  | method receiver name target =>
    have ht : ∀ x, target = some x → N x := fun x hx => by subst hx; exact hf
    refine (Apart.forceAll cfg n args pos).touches.bind fun types _ => ?_
    exact (touched_callMethod receiver name ht types).bind fun _ _ => preserves_pure trivial
  | _ => exact (Apart.call cfg n rfl args keywords loose pos scope).touched (aims_call _ _ _ _ _ _ _)

def Stays (N : String → Prop) (cfg : Setting) (n scope : Nat) (e : Expr) : Prop :=
  ∀ old before, Preserves (Session.Touched N scope old before) ((machine cfg n).eval e scope) (Value.Aims N)

section

variable {e : Expr} {es : List Expr}

theorem touched_forced (he : Stays N cfg n scope e) (pos : Extent) :
    Preserves (Session.Touched N scope old before) ((machine cfg n).forced ((machine cfg n).eval e scope) pos)
      fun _ => True :=
  (he old before).bind fun v _ => (Apart.force cfg n v pos).touches

theorem touched_fault {x : Except Fault α} :
    Preserves (Session.Touched N scope old before) (liftFault x) fun _ => True :=
  preserves_liftFault fun _ _ => trivial

theorem touched_computed (x : Except Fault Ty) :
    Preserves (Session.Touched N scope old before) (computed x) fun _ => True :=
  touched_fault.bind fun _ _ => preserves_modifyGet (fun _ hs => ⟨hs.others, hs.own⟩) fun _ _ => trivial

theorem touched_narrowed (test : Expr) :
    Preserves (Session.Touched N scope old before) (narrowed test scope) fun _ => True :=
  touched_envOf.bind fun _ _ => touched_fault

theorem touched_evalLogical (op : LogicalOp) (he : ∀ e ∈ es, Stays N cfg n scope e) :
    Preserves (Session.Touched N scope old before) ((machine cfg n).evalLogical op es scope) fun _ => True := by
  cases es with
  | nil => exact preserves_pure trivial
  | cons e es =>
    have hfirst := he e List.mem_cons_self
    cases es with
    | nil => exact (touched_forced hfirst _).bind fun _ _ => preserves_pure trivial
    | cons e' es =>
      refine (touched_forced hfirst _).bind fun t _ => ?_
      split
      · exact preserves_pure trivial
      · refine touched_fault.bind fun _ _ => (touched_narrowed e).bind fun ends _ => ?_
        exact (Apart.logicalIn cfg n _ op _).touches.bind fun _ _ => preserves_pure trivial

theorem touched_evalCompared {rs : List (CompareOp × Expr)} (he : ∀ r ∈ rs, Stays N cfg n scope r.2) (left : Ty) :
    Preserves (Session.Touched N scope old before) ((machine cfg n).evalCompared left rs scope) fun _ => True := by
  induction rs generalizing left with
  | nil => exact preserves_pure trivial
  | cons r rs ih =>
    obtain ⟨hr, hrs⟩ := List.forall_mem_cons.mp he
    refine (touched_forced hr _).bind fun right _ => touched_fault.bind fun _ _ => ?_
    exact (ih hrs right).bind fun _ _ => preserves_pure trivial

theorem touched_evalArgs (he : ∀ e ∈ es, Stays N cfg n scope e) :
    Preserves (Session.Touched N scope old before) ((machine cfg n).evalArgs es scope) fun _ => True := by
  induction es with
  | nil => exact preserves_pure trivial
  | cons e es ih =>
    obtain ⟨he, hes⟩ := List.forall_mem_cons.mp he
    simp only [Machine.evalArgs]
    refine Preserves.bind (he old before) fun _ _ => (ih hes).bind fun found _ => ?_
    obtain ⟨args, loose⟩ := found
    split <;> exact preserves_pure trivial

theorem touched_evalKeywords {ks : List (Keyword Expr)} (he : ∀ k ∈ ks, Stays N cfg n scope k.value) :
    Preserves (Session.Touched N scope old before) ((machine cfg n).evalKeywords ks scope) fun _ => True := by
  induction ks with
  | nil => exact preserves_pure trivial
  | cons k ks ih =>
    obtain ⟨hk, hks⟩ := List.forall_mem_cons.mp he
    obtain ⟨name, e⟩ := k
    refine Preserves.bind (hk old before) fun _ _ => (ih hks).bind fun found _ => ?_
    obtain ⟨keywords, spread⟩ := found
    cases name <;> exact preserves_pure trivial

theorem touched_evalBound {b : Option Expr} (he : ∀ e ∈ b.toList, Stays N cfg n scope e) :
    Preserves (Session.Touched N scope old before) ((machine cfg n).evalBound b scope) fun _ => True := by
  cases b with
  | none => exact preserves_pure trivial
  | some e => exact (touched_forced (he e (by simp)) _).bind fun _ _ => preserves_pure trivial

theorem touched_evalTuple (he : ∀ e ∈ es, Stays N cfg n scope e) (loose : Bool) (items : List Ty) :
    Preserves (Session.Touched N scope old before) ((machine cfg n).evalTuple loose items es scope) fun _ => True := by
  induction es generalizing loose items with
  | nil => exact preserves_pure trivial
  | cons e es ih =>
    obtain ⟨he, hes⟩ := List.forall_mem_cons.mp he
    refine (touched_forced he _).bind fun t _ => ?_
    split
    · exact ih hes _ _
    · split
      · exact touched_fault.bind fun _ _ => ih hes _ _
      · split
        · exact ih hes _ _
        · exact touched_fault.bind fun _ _ => ih hes _ _

theorem touched_evalItems (he : ∀ e ∈ es, Stays N cfg n scope e) :
    Preserves (Session.Touched N scope old before) ((machine cfg n).evalItems es scope) fun _ => True := by
  induction es with
  | nil => exact preserves_pure trivial
  | cons e es ih =>
    obtain ⟨he, hes⟩ := List.forall_mem_cons.mp he
    refine (touched_forced he _).bind fun t _ => touched_fault.bind fun _ _ => ?_
    exact (ih hes).bind fun _ _ => preserves_pure trivial

theorem touched_evalEntries {es : List (Option Expr × Expr)}
    (he : ∀ e ∈ es, ∀ c ∈ e.1.toList ++ [e.2], Stays N cfg n scope c) (fields : Bindings Ty) (known : Bool) :
    Preserves (Session.Touched N scope old before) ((machine cfg n).evalEntries fields known es scope)
      fun _ => True := by
  induction es generalizing fields known with
  | nil => exact preserves_pure trivial
  | cons entry es ih =>
    obtain ⟨he, hes⟩ := List.forall_mem_cons.mp he
    obtain ⟨key, value⟩ := entry
    have hvalue := he value (by simp)
    cases key with
    | none =>
      refine (touched_forced hvalue _).bind fun t _ => ?_
      split <;> exact ih hes _ _
    | some k =>
      refine (touched_forced hvalue _).bind fun t _ => (touched_forced (he k (by simp)) _).bind fun _ _ => ?_
      split <;> exact ih hes _ _

theorem touched_evalParts (he : ∀ e ∈ es, ∀ c ∈ e.operands, Stays N cfg n scope c) :
    Preserves (Session.Touched N scope old before) ((machine cfg n).evalParts es scope) fun _ => True := by
  induction es with
  | nil => exact preserves_pure trivial
  | cons e es ih =>
    obtain ⟨he, hes⟩ := List.forall_mem_cons.mp he
    cases e with
    | formatted p v spec => exact (touched_forced (he v (by simp [Expr.operands])) _).bind fun _ _ => ih hes
    | _ => exact ih hes

end

theorem stays (e : Expr) : (∀ x, e.Touches x → N x) → Stays N cfg n scope e := by
  induction e using Expr.induct_operands with
  | step e ih =>
    intro hN old before
    have good {c : Expr} (hc : c ∈ e.operands) : Stays N cfg n scope c := (ih c hc).1 fun x hx => hN x (.operand hc hx)
    have inner {c d : Expr} (hc : c ∈ e.operands) (hd : d ∈ c.operands) : Stays N cfg n scope d :=
      (ih c hc).2 d hd fun x hx => hN x (.operand hc (.operand hd hx))
    cases e with
    | constant p c =>
      refine Preserves.located (Preserves.bind (P := fun _ => True) ?_ fun _ _ => preserves_pure trivial) _ _
      exact preserves_modifyGet (fun _ hs => ⟨hs.others, hs.own⟩) fun _ _ => trivial
    | name p id => exact (touched_lookup id).located _ _
    | binary p op left right =>
      refine Preserves.located ((touched_forced (good (by simp [Expr.operands])) _).bind fun _ _ => ?_) _ _
      refine (touched_forced (good (by simp [Expr.operands])) _).bind fun _ _ => ?_
      exact (touched_computed _).bind fun _ _ => preserves_pure trivial
    | unary p op c =>
      refine Preserves.located ((touched_forced (good (by simp [Expr.operands])) _).bind fun _ _ => ?_) _ _
      exact (touched_computed _).bind fun _ _ => preserves_pure trivial
    | logical p op es =>
      exact ((touched_evalLogical op fun c hc => good hc).bind fun _ _ => preserves_pure trivial).located _ _
    | comparison p left rs =>
      refine Preserves.located ((touched_forced (good (by simp [Expr.operands])) _).bind fun _ _ => ?_) _ _
      refine (touched_evalCompared (fun r hr => ?_) _).bind fun _ _ => preserves_pure trivial
      exact good (List.mem_cons_of_mem _ (List.mem_map_of_mem hr))
    | conditional p test body otherwise =>
      refine Preserves.located ((touched_forced (good (by simp [Expr.operands])) _).bind fun _ _ => ?_) _ _
      refine (touched_narrowed test).bind fun ends _ => ?_
      refine (Apart.forcedIn cfg n _ body).touches.bind fun _ _ => ?_
      exact (Apart.forcedIn cfg n _ otherwise).touches.bind fun _ _ => preserves_pure trivial
    | call p f as ks =>
      refine Preserves.located (Preserves.bind (good (c := f) (by simp [Expr.operands]) old before) fun v hv => ?_) _ _
      have hkeywords (k : Keyword Expr) (hk : k ∈ ks) : Stays N cfg n scope k.value :=
        good (List.mem_cons_of_mem _ (List.mem_append_right _ (List.mem_map_of_mem hk)))
      refine (touched_evalArgs fun c hc => good (by simp [Expr.operands, hc])).bind fun found _ => ?_
      obtain ⟨args, loose⟩ := found
      refine (touched_evalKeywords hkeywords).bind fun found _ => ?_
      obtain ⟨keywords, spread⟩ := found
      exact touched_call hv _ _ _ _
    | member p c attr =>
      refine Preserves.located (Preserves.bind (good (c := c) (by simp [Expr.operands]) old before) fun v hv => ?_) _ _
      split
      · exact preserves_pure trivial
      · split
        · exact touched_memberOf _ attr (fun x hx => hN x (.own hx)) p
        · exact preserves_pure trivial
    | subscript p c index =>
      have hc := good (c := c) (by simp [Expr.operands])
      have hi := good (c := index) (by simp [Expr.operands])
      have hplain (hslice : ∀ q lower upper step, index ≠ .slice q lower upper step) :
          Preserves (Session.Touched N scope old before) ((machine cfg n).eval (.subscript p c index) scope)
            (Value.Aims N) := by
        rw [Machine.eval_subscript _ p c hslice]
        refine Preserves.located ((touched_forced hc _).bind fun _ _ => (touched_forced hi _).bind fun _ _ => ?_) _ _
        exact (Apart.itemOf cfg n _ _ p).touches.bind fun _ _ => preserves_pure trivial
      cases index with
      | slice q lower upper step =>
        have hbound {b : Option Expr} (hb : ∀ d ∈ b.toList, d ∈ (Expr.slice q lower upper step).operands) :
            Preserves (Session.Touched N scope old before) ((machine cfg n).evalBound b scope) fun _ => True :=
          touched_evalBound fun d hd => inner (c := .slice q lower upper step) (by simp [Expr.operands]) (hb d hd)
        refine Preserves.located ((touched_forced hc _).bind fun _ _ => ?_) _ _
        refine (hbound (by simp +contextual [Expr.operands])).bind fun _ _ => ?_
        refine (hbound (by simp +contextual [Expr.operands])).bind fun _ _ => ?_
        refine (hbound (by simp +contextual [Expr.operands])).bind fun _ _ => ?_
        exact touched_fault.bind fun _ _ => preserves_pure trivial
      | _ => exact hplain (by simp)
    | slice p lower upper step => exact Preserves.located (preserves_pure trivial) _ _
    | tuple p es =>
      exact ((touched_evalTuple (fun c hc => good hc) false []).bind fun _ _ => preserves_pure trivial).located _ _
    | list p es => exact ((touched_evalItems fun c hc => good hc).bind fun _ _ => preserves_pure trivial).located _ _
    | set p es => exact ((touched_evalItems fun c hc => good hc).bind fun _ _ => preserves_pure trivial).located _ _
    | dict p es =>
      refine Preserves.located ((touched_evalEntries (fun e he c hc => ?_) [] true).bind fun _ _ =>
        preserves_pure trivial) _ _
      exact good (List.mem_flatMap.mpr ⟨e, he, hc⟩)
    | template p es =>
      exact ((touched_evalParts fun c hc d hd => inner hc hd).bind fun _ _ => preserves_pure trivial).located _ _
    | formatted p v spec => exact Preserves.located (preserves_pure trivial) _ _
    | comprehension p c gs =>
      refine (Apart.comprehension cfg n p c gs scope).touched (Preserves.located (preserves_any.bind fun _ _ => ?_) _ _)
      refine preserves_any.bind fun o _ => ?_
      cases o with
      | none => exact preserves_pure trivial
      | some inner => exact preserves_any.bind fun _ _ => preserves_pure trivial
    | dictComprehension p key value gs =>
      refine (Apart.dictComprehension cfg n p key value gs scope).touched
        (Preserves.located (preserves_any.bind fun _ _ => preserves_any.bind fun o _ => ?_) _ _)
      cases o with
      | none => exact preserves_pure trivial
      | some inner => exact preserves_any.bind fun _ _ => preserves_any.bind fun _ _ => preserves_pure trivial
    | lambda p params body =>
      refine Preserves.located (Preserves.bind (P := fun _ => True) ?_ fun _ _ => ?_) _ _
      · exact touched_envOf.bind fun env _ => Apart.touches fun s => (retains_newScope env s s.retains_self).1
      · exact preserves_modifyGet (fun _ hs => ⟨hs.others, hs.own⟩) fun _ _ => trivial
    | assign p name c =>
      refine Preserves.located (Preserves.bind (good (c := c) (by simp [Expr.operands]) old before) fun v hv => ?_) _ _
      refine (touched_changeEnv fun env henv => ?_).bind fun _ _ => preserves_pure hv
      exact henv.set (hN name (.own rfl)) hv
    | starred p c => exact (good (c := c) (by simp [Expr.operands]) old before).located _ _
    | other p es => exact Preserves.located (preserves_pure trivial) _ _

theorem touched_eval (cfg : Setting) (n : Nat) {e : Expr} (he : ∀ x, e.Touches x → N x) {s : Session} {env : Env}
    (hs : s.scopes[scope]? = some env) (ha : env.All (Value.Aims N)) :
    (((machine cfg n).eval e scope).run s).2.Touched N scope s.scopes env :=
  have hstays : Stays N cfg n scope e := stays e he
  (hstays s.scopes env s ⟨fun _ _ _ => rfl, env, hs, fun _ _ => rfl, fun _ => id, ha⟩).1

/-- An environment without methods of its own keeps all bindings, and changes only those that the expression touches;
every other scope stays as it is. This is so however the evaluation ends. -/
theorem eval_changes_only_touched (cfg : Setting) (n : Nat) (e : Expr) {scope : Nat} {s : Session} {env : Env}
    (hs : s.scopes[scope]? = some env) (hm : env.All fun v => Machine.isMethod v = false) :
    (∃ after, (((machine cfg n).eval e scope).run s).2.scopes[scope]? = some after ∧
      (∀ x, env.has x = true → after.has x = true) ∧ ∀ x, ¬ e.Touches x → after.get? x = env.get? x) ∧
    ∀ i < s.scopes.size, i ≠ scope → (((machine cfg n).eval e scope).run s).2.scopes[i]? = s.scopes[i]? := by
  obtain ⟨hothers, after, hafter, hchanges⟩ := touched_eval cfg n (fun _ => id) hs (Env.aims_of_plain hm)
  exact ⟨⟨after, hafter, hchanges.bound, hchanges.kept⟩, hothers⟩

def listSetting : Setting := { module := { file := "list" }, mocks := [] }

def listSession : Session where
  scopes := #[[("items", .type (.array .number)), ("label", .type .string)]]
  frames := [{ depth := 0 }]

def appendLabel : Expr := .call default (.member default (.name default "items") "append") [.name default "label"] []

theorem appendLabel_keeps_label :
    ∃ after, (((machine listSetting 0).eval appendLabel 0).run listSession).2.scopes[0]? = some after ∧
      after.get? "label" = some (.type .string) := by
  have huntouched : ¬ appendLabel.Touches "label" := by
    intro h
    cases h with
    | own h => cases h
    | operand hc h =>
      simp only [appendLabel, Expr.operands, List.map_nil, List.append_nil, List.mem_cons, List.not_mem_nil, or_false] at hc
      rcases hc with rfl | rfl
      · cases h with
        | own h => exact absurd h (by decide)
        | operand hc h =>
          obtain rfl := List.mem_singleton.mp hc
          cases h with
          | own h => cases h
          | operand hc _ => cases hc
      · cases h with
        | own h => cases h
        | operand hc _ => cases hc
  have hscope : listSession.scopes[0]? = some [("items", .type (.array .number)), ("label", .type .string)] := rfl
  obtain ⟨⟨after, hafter, _, hkept⟩, _⟩ :=
    eval_changes_only_touched listSetting 0 appendLabel hscope (by simp [Env.All, Machine.isMethod])
  exact ⟨after, hafter, hkept "label" huntouched⟩

end Symbolic

end Casewise
