import Casewise.Proofs.Marking
import Casewise.Proofs.Symbolic.Invariant
import Casewise.Proofs.Symbolic.Returns

namespace Casewise

def OnlyTooLong {α : Type} (x : Except Fault α) : Prop := ∀ f, x = .error f → f = .tooLong

section

variable {α β : Type}

theorem onlyTooLong_ok (a : α) : OnlyTooLong (.ok a) := nofun

theorem OnlyTooLong.bind {x : Except Fault α} {f : α → Except Fault β} (hx : OnlyTooLong x)
    (hf : ∀ a, OnlyTooLong (f a)) : OnlyTooLong (x >>= f) := by
  cases x with
  | ok a => exact hf a
  | error e => exact fun f hf => hx f (congrArg Except.error (Except.error.inj hf))

theorem onlyTooLong_orTooLong (o : Option α) : OnlyTooLong (orTooLong o) := by
  cases o with
  | none => exact fun f hf => (Except.error.inj hf).symm
  | some a => exact onlyTooLong_ok a

end

theorem Ty.onlyTooLong_sortedMembers (t : Ty) : OnlyTooLong t.sortedMembers := onlyTooLong_orTooLong _

theorem Env.onlyTooLong_narrowTruth (env : Env) (name : String) : OnlyTooLong (env.narrowTruth name) := by
  have hpart (t : Ty) (truthy : Bool) : OnlyTooLong (t.truthPart truthy) :=
    t.onlyTooLong_sortedMembers.bind fun _ => onlyTooLong_ok _
  unfold Env.narrowTruth
  split
  · next t _ => exact (hpart t true).bind fun _ => (hpart t false).bind fun _ => onlyTooLong_ok _
  · exact onlyTooLong_ok _

theorem Env.onlyTooLong_narrowNone (env : Env) (name : String) (op : CompareOp) :
    OnlyTooLong (env.narrowNone name op) := by
  have hnone (t : Ty) : OnlyTooLong t.nonePart := by
    unfold Ty.nonePart
    split
    · exact onlyTooLong_ok _
    · exact t.onlyTooLong_sortedMembers.bind fun _ => onlyTooLong_ok _
  have hrest (t : Ty) : OnlyTooLong t.withoutNone := t.onlyTooLong_sortedMembers.bind fun _ => onlyTooLong_ok _
  unfold Env.narrowNone
  split
  · next t _ =>
    refine (hnone t).bind fun _ => (hrest t).bind fun _ => ?_
    split <;> exact onlyTooLong_ok _
  · exact onlyTooLong_ok _

theorem Env.onlyTooLong_narrowInstance (env : Env) (name : String) (classes : List KnownClass) :
    OnlyTooLong (env.narrowInstance name classes) := by
  have hpart (t : Ty) (matching : Bool) : OnlyTooLong (t.instancePart classes matching) :=
    t.onlyTooLong_sortedMembers.bind fun _ => onlyTooLong_ok _
  unfold Env.narrowInstance
  split
  · next t _ _ _ => exact (hpart t true).bind fun _ => (hpart t false).bind fun _ => onlyTooLong_ok _
  · exact onlyTooLong_ok _

theorem Expr.onlyTooLong_narrow (e : Expr) (env : Env) : OnlyTooLong (e.narrow env) := by
  refine Expr.narrow.induct_unfolding (fun _ _ result => OnlyTooLong result) (fun _ _ _ result => OnlyTooLong result)
    ?not ?logical ?name ?none ?order ?shadowed ?isinstance ?other ?last ?operand ?left e env
  case not => exact fun _ _ _ ih => ih.bind fun _ => onlyTooLong_ok _
  case logical =>
    intro _ op _ _ ih
    refine ih.bind fun _ => ?_
    cases op <;> exact onlyTooLong_ok _
  case name => exact fun _ n env => env.onlyTooLong_narrowTruth n
  case none => exact fun _ _ n op _ env _ => env.onlyTooLong_narrowNone n op
  case isinstance => exact fun _ _ _ n _ _ env _ => env.onlyTooLong_narrowInstance n _
  case operand => exact fun _ _ _ _ ih ihs => ih.bind ihs
  all_goals intros; exact onlyTooLong_ok _

namespace Symbolic

variable {α β : Type} {m : Machine} {s s' : Session} {scope : Nat} {stop : Stop}

def Settles (act : Run α) : Prop := ∀ s cause, (act.run s).1 ≠ .error (.undefined cause none)

theorem Settles.bind {x : Run α} {f : α → Run β} (hx : Settles x) (hf : ∀ a, Settles (f a)) : Settles (x >>= f) :=
  fun s cause => run_bind_ne_error (fun s => hx s cause) (fun a s => hf a s cause) s

theorem settles_of_ok {act : Run α} (h : ∀ s, ∃ a, (act.run s).1 = .ok a) : Settles act := by
  intro s cause he
  obtain ⟨a, ha⟩ := h s
  rw [ha] at he
  cases he

theorem settles_pure (a : α) : Settles (pure a : Run α) := settles_of_ok fun _ => ⟨a, rfl⟩

theorem settles_located (module : Module) (pos : Extent) (act : Run α) : Settles (located module pos act) := by
  intro s cause
  rw [run_located]
  generalize (act.run s).1 = r
  cases r with
  | ok a => exact nofun
  | error stop =>
    cases stop with
    | undefined cause place => cases place <;> simp [Except.mapError, Stop.placed]
    | _ => exact nofun

theorem Settles.run_located {act : Run α} (h : Settles act) (module : Module) (pos : Extent) (s : Session) :
    (located module pos act).run s = act.run s := by
  have hs := h s
  rw [Symbolic.run_located]
  generalize act.run s = r at hs ⊢
  rcases r with ⟨stop | a, s'⟩
  · cases stop with
    | undefined cause place =>
      cases place with
      | none => exact absurd rfl (hs cause)
      | some => rfl
    | _ => rfl
  · rfl

theorem settles_forcedEval (m : Machine) (e : Expr) (scope : Nat) (pos : Extent) :
    Settles (m.forced (m.eval e scope) pos) := by
  have heval : Settles (m.eval e scope) := by
    unfold Machine.eval
    exact settles_located _ _ _
  refine heval.bind fun v => ?_
  unfold Machine.force force
  split
  · split
    · exact settles_pure _
    · exact (settles_of_ok fun _ => ⟨_, rfl⟩).bind fun _ => settles_pure _
  · exact settles_pure _

theorem settles_liftFault {x : Except Fault α} (h : OnlyTooLong x) : Settles (liftFault x) := by
  cases x with
  | ok a => exact settles_pure a
  | error f =>
    obtain rfl := h f rfl
    exact fun s cause => nofun

theorem settles_inScope? (env : Option Env) {act : Nat → Run α} (h : ∀ inner, Settles (act inner)) :
    Settles (inScope? env act) := by
  cases env with
  | none => exact settles_pure _
  | some env => exact (settles_of_ok fun _ => ⟨_, rfl⟩).bind fun inner => (h inner).bind fun _ => settles_pure _

theorem settles_narrowed (test : Expr) (scope : Nat) : Settles (narrowed test scope) :=
  (settles_of_ok fun _ => ⟨_, rfl⟩).bind fun env => settles_liftFault (test.onlyTooLong_narrow env)

theorem settles_branches (m : Machine) (test : Expr) (scope : Nat) : Settles (m.branches test scope) :=
  (settles_forcedEval m test scope test.pos).bind fun _ => (settles_narrowed test scope).bind fun _ => settles_pure _

def Machine.taken (m : Machine) (e : Expr) (env : Option Env) : Run (Option Ty) :=
  inScope? env fun inner => m.forced (m.eval e inner) e.pos

def Machine.alternatives (m : Machine) (test a b : Expr) (scope : Nat) : Run (List Ty) := do
  let (_, ends) ← m.branches test scope
  let whenTrue ← m.taken a ends.whenTrue
  let whenFalse ← m.taken b ends.whenFalse
  return whenTrue.toList ++ whenFalse.toList

theorem eval_conditional (m : Machine) (p : Extent) (test a b : Expr) (scope : Nat) :
    m.eval (.conditional p test a b) scope = located m.module p (do
      return .type (.union (← m.alternatives test a b scope))) := by
  simp only [Machine.alternatives, Machine.branches, Machine.taken, bind_assoc, pure_bind]
  rfl

theorem settles_taken (m : Machine) (e : Expr) (env : Option Env) : Settles (m.taken e env) :=
  settles_inScope? env fun inner => settles_forcedEval m e inner e.pos

theorem run_eval_conditional (m : Machine) (p : Extent) (test a b : Expr) (scope : Nat) (s : Session) :
    (m.eval (.conditional p test a b) scope).run s =
      (do return Value.type (.union (← m.alternatives test a b scope)) : Run Value).run s := by
  rw [eval_conditional]
  refine Settles.run_located ?_ m.module p s
  refine Settles.bind ?_ fun _ => settles_pure _
  exact (settles_branches m test scope).bind fun ends => (settles_taken m a _).bind fun _ =>
    (settles_taken m b _).bind fun _ => settles_pure _

theorem run_execBlock_single {st : Stmt} {r : Except Stop Flow} (h : (m.exec st scope).run s = (r, s'))
    (hr : ∀ flow, r = .ok flow → flow.next = none) : (m.execBlock [st] scope).run s = (endedPath r, s') := by
  have hended : (endingPath (m.exec st scope)).run s = (endedPath r, s') := by rw [run_endingPath, h]
  have hflow : ∀ flow, endedPath r = .ok flow → flow.next = none := by
    intro flow hf
    cases r with
    | ok flow' => exact hr flow hf
    | error stop =>
      cases stop with
      | unreachable => exact Except.ok.inj hf ▸ rfl
      | _ => cases hf
  generalize endedPath r = r' at hended hflow
  unfold Machine.execBlock
  cases r' with
  | error stop => exact run_bind_error hended
  | ok flow =>
    rw [run_bind_ok hended, hflow flow rfl]
    rfl

section

variable {p : Extent} {e : Expr} {t : Ty} {env : Option Env} {o : Option Ty}

theorem run_returns_ok (h : (m.forced (m.eval e scope) e.pos).run s = (.ok t, s')) :
    (m.execBlock [.returns p (some e)] scope).run s = (.ok .left, s'.returning [t]) := by
  refine run_execBlock_single (r := .ok .left) ?_ fun flow hf => Except.ok.inj hf ▸ rfl
  unfold Machine.exec
  rw [run_bind_ok h, run_bind_ok (run_recordReturn t s')]
  rfl

theorem run_returns_error (h : (m.forced (m.eval e scope) e.pos).run s = (.error stop, s')) :
    (m.execBlock [.returns p (some e)] scope).run s = (endedPath (.error stop), s') := by
  refine run_execBlock_single (r := .error stop) ?_ nofun
  unfold Machine.exec
  exact run_bind_error h

def returnedFlow : Except Stop (Option Ty) → Except Stop (Option Flow)
  | .ok o => .ok (o.map fun _ => .left)
  | .error .unreachable => .ok (some .left)
  | .error stop => .error stop

theorem returnedFlow_error (h : stop ≠ .unreachable) : returnedFlow (.error stop) = .error stop := by
  cases stop with
  | unreachable => exact absurd rfl h
  | _ => rfl

def returnedTypes : Except Stop (Option Ty) → List Ty
  | .ok o => o.toList
  | .error _ => []

theorem run_branch_returns {r : Except Stop (Option Ty)} (h : (m.taken e env).run s = (r, s')) :
    (inScope? env (m.execBlock [.returns p (some e)])).run s = (returnedFlow r, s'.returning (returnedTypes r)) := by
  cases env with
  | none =>
    obtain ⟨rfl, rfl⟩ := Prod.mk.inj h
    rw [returnedTypes, Option.toList_none, returning_nil]
    rfl
  | some env =>
    have hscope : (newScope env).run s = (.ok s.scopes.size, { s with scopes := s.scopes.push env }) := rfl
    unfold Machine.taken at h
    simp only [inScope?] at h ⊢
    rw [run_bind_ok hscope] at h ⊢
    rcases hr : (m.forced (m.eval e s.scopes.size) e.pos).run { s with scopes := s.scopes.push env } with ⟨stop | t, s₁⟩
    · rw [run_bind_error hr] at h
      obtain ⟨rfl, rfl⟩ := Prod.mk.inj h
      have hblock := run_returns_error (p := p) hr
      rw [returnedTypes, returning_nil]
      cases stop with
      | unreachable => exact run_bind_ok hblock
      | _ => exact run_bind_error hblock
    · rw [run_bind_ok hr] at h
      obtain ⟨rfl, rfl⟩ := Prod.mk.inj h
      exact run_bind_ok (run_returns_ok hr)

end

section

variable {p q : Extent} {test a b : Expr} {truth : Option Bool} {ends : Narrowed} {s₁ s₂ s₃ : Session}

theorem run_conditional_ok {ts : List Ty} (h : (m.alternatives test a b scope).run s = (.ok ts, s')) :
    (m.forced (m.eval (.conditional p test a b) scope) q).run s = (.ok (Value.type (.union ts)).asType, s') := by
  have heval : (m.eval (.conditional p test a b) scope).run s = (.ok (.type (.union ts)), s') := by
    rw [run_eval_conditional, run_bind_ok h]
    rfl
  exact run_bind_ok heval

theorem run_eval_conditional_error (h : (m.alternatives test a b scope).run s = (.error stop, s')) :
    (m.eval (.conditional p test a b) scope).run s = (.error stop, s') := by
  rw [run_eval_conditional, run_bind_error h]

theorem join_left {flows : List Flow} (h : ∀ f ∈ flows, f = .left) : join flows = pure .left := by
  have hnext : flows.filterMap (·.next) = [] := List.filterMap_eq_nil_iff.mpr fun f hf => h f hf ▸ rfl
  have hbreaks : flows.flatMap (·.breaks) = [] := List.flatMap_eq_nil_iff.mpr fun f hf => h f hf ▸ rfl
  have hcontinues : flows.flatMap (·.continues) = [] := List.flatMap_eq_nil_iff.mpr fun f hf => h f hf ▸ rfl
  simp only [join, hnext, hbreaks, hcontinues]
  rfl

theorem run_branch_ok {body otherwise : List Stmt} {f g : Option Flow}
    (hb : (m.branches test scope).run s = (.ok (truth, ends), s₁))
    (hf : (inScope? ends.whenTrue (m.execBlock body)).run s₁ = (.ok f, s₂))
    (hg : (inScope? ends.whenFalse (m.execBlock otherwise)).run s₂ = (.ok g, s₃))
    (hleft : ∀ flow ∈ f.toList ++ g.toList, flow = .left) :
    (m.execBlock [.branch p test body otherwise] scope).run s = (.ok .left, s₃) := by
  refine run_execBlock_single (r := .ok .left) ?_ fun flow hf => Except.ok.inj hf ▸ rfl
  unfold Machine.exec
  rw [run_bind_ok hb, run_bind_ok hf, run_bind_ok hg, join_left hleft]
  rfl

theorem run_branch_error {body otherwise : List Stmt}
    (h : (m.exec (.branch p test body otherwise) scope).run s = (.error stop, s')) :
    (m.execBlock [.branch p test body otherwise] scope).run s = (endedPath (.error stop), s') :=
  run_execBlock_single h nofun

end

namespace RunLogic.Lawful

variable {ι : Type} {L : RunLogic ι} (h : L.Lawful) {start w : L.World} (j : L.Jumps L.free start)
  (hw : L.later start w)

include h j hw

theorem taken (e : Expr) {env : Option Env} (he : ∀ v, env = some v → v.All (L.Fits w L.free)) :
    L.Judge w (fun i => (L.machine i).taken e env) fun _ o => ∀ t, o = some t → L.Holds t :=
  h.forcedIn (h.evaluates j e) hw he

theorem alternatives (test a b : Expr) (hs : L.At w L.free scope) :
    L.Judge w (fun i => (L.machine i).alternatives test a b (L.number i scope)) fun _ ts => ∀ t ∈ ts, L.Holds t := by
  unfold Machine.alternatives
  refine h.bind (h.branches j hw hs test) fun w₁ ends hw₁ hends => ?_
  refine h.bind (h.taken j (h.trans hw hw₁) a hends.whenTrue) fun w₂ o hw₂ ho => ?_
  have hfalse := (h.ends_later hw₂ hends).whenFalse
  refine h.bind (h.taken j (h.trans hw (h.trans hw₁ hw₂)) b hfalse) fun w₃ o' _ ho' => h.pure fun t ht => ?_
  rcases List.mem_append.mp ht with ht | ht
  · exact ho t (Option.mem_toList.mp ht)
  · exact ho' t (Option.mem_toList.mp ht)

end RunLogic.Lawful

section

variable {cfg : Setting} {n below : Nat}

theorem ignores_taken (e : Expr) (env : Option Env) : Ignores below 0 ((machine cfg n).taken e env) fun _ => True := by
  have hl := ignoring_lawful below cfg n
  have ht := hl.taken (ignoring_jumps below cfg n (0 : Nat)) rfl e fun v (_ : env = some v) _ _ => Value.meets_true _
  simp only [ignoring_machine] at ht
  exact hl.mono ht fun _ _ _ _ => trivial

theorem ignores_branches (test : Expr) (scope : Nat) :
    Ignores below 0 ((machine cfg n).branches test scope) fun _ => True := by
  have hl := ignoring_lawful below cfg n
  have hat : (ignoring below cfg n).At (0 : Nat) (ignoring below cfg n).free scope := trivial
  have ht := hl.branches (ignoring_jumps below cfg n (0 : Nat)) rfl hat test
  simp only [ignoring_machine] at ht
  exact hl.mono ht fun _ _ _ _ => trivial

theorem Setting.keeps_flat (hm : ∀ name v, cfg.mocks.resolve? name = some v → v.type.Flat) :
    cfg.Keeps Ty.Flat Ty.Flat :=
  ⟨Ty.permissive_flat.toClosed, Ty.permissive_flat, fun _ => id, fun _ supply h => Ty.flat_mapNumbers h supply, hm⟩

theorem flat_alternatives (hm : ∀ name v, cfg.mocks.resolve? name = some v → v.type.Flat) (test a b : Expr)
    (scope : Nat) :
    Preserves (Session.Keeps Ty.Flat) ((machine cfg n).alternatives test a b scope) fun ts => ∀ t ∈ ts, t.Flat := by
  have hk := (Setting.keeps_flat hm).invariant
  have hat : (keeping (Session.Keeps Ty.Flat) Ty.Flat Ty.Flat cfg n).At () () scope := trivial
  have ha := (hk.lawful n).alternatives (hk.jumps n) trivial test a b hat
  simp only [keeping_machine] at ha
  exact ha

end

def Session.ReturnsAlike (x y : Session) : Prop :=
  ∃ frame rest returns, x.frames = frame :: rest ∧ y = { x with frames := { frame with returns } :: rest } ∧
    Ty.union frame.returns = Ty.union returns ∧ (frame.returns = [] ↔ returns = [])

def Agree (x y : Except Stop Flow × Session) : Prop := x.1 = y.1 ∧ ∀ flow, x.1 = .ok flow → x.2.ReturnsAlike y.2

theorem returnsAlike_returning {ts us : List Ty} (hs : s.frames ≠ []) (hempty : ts = [] ↔ us = [])
    (hunion : ∀ before, Ty.union (before ++ ts) = Ty.union (before ++ us)) :
    (s.returning ts).ReturnsAlike (s.returning us) := by
  rcases s with ⟨_, _, _ | ⟨x, rest⟩, _, _, _, _, _, _⟩
  · exact absurd rfl hs
  · refine ⟨{ x with returns := x.returns ++ ts }, rest, x.returns ++ us, rfl, rfl, hunion x.returns, ?_⟩
    simp only [List.append_eq_nil_iff, hempty]

/-- Where a returned conditional expression and a branch that returns its parts differ: no part can be chosen, both can
but one of them always raises, or what is chosen is a stand-in for an exception. -/
inductive Machine.Deviates (m : Machine) (p : Extent) (test a b : Expr) (scope : Nat) (s : Session) : Prop where
  | unchosen {truth : Option Bool} {s' : Session} (h : (m.branches test scope).run s = (.ok (truth, ⟨none, none⟩), s'))
  | raises {truth : Option Bool} {whenTrue whenFalse : Env} {s' : Session}
    (h : (m.branches test scope).run s = (.ok (truth, ⟨some whenTrue, some whenFalse⟩), s'))
    (hraises : ((m.eval (.conditional p test a b) scope).run s).1 = .error .unreachable)
  | exception {name : Option String}
    (h : ((m.eval (.conditional p test a b) scope).run s).1 = .ok (.type (.throws name)))

section

variable {cfg : Setting} {n : Nat} {test a b : Expr} {p q r r₁ r₂ : Extent}

theorem agree_of_eq {x y : Except Stop Flow × Session} (h : x = y) (hs : Continues x.1 → x.2.frames ≠ []) :
    Agree x y := by
  subst h
  refine ⟨rfl, fun flow hf => ?_⟩
  have hframes := hs (by rw [hf]; trivial)
  rw [← returning_nil x.2]
  exact returnsAlike_returning hframes .rfl fun _ => rfl

theorem agree_of_error (hstop : stop ≠ .unreachable) {x y : Session} :
    Agree (endedPath (.error stop), x) (endedPath (.error stop), y) := by
  refine ⟨rfl, fun flow hf => ?_⟩
  cases stop with
  | unreachable => exact absurd rfl hstop
  | _ => cases hf

theorem env_eq_none_of_taken {e : Expr} {env : Option Env} (h : (m.taken e env).run s = (.ok none, s')) :
    env = none := by
  cases env with
  | none => rfl
  | some v =>
    have hscope : (newScope v).run s = (.ok s.scopes.size, { s with scopes := s.scopes.push v }) := rfl
    simp only [Machine.taken, inScope?, run_bind_ok hscope] at h
    rcases hr : (m.forced (m.eval e s.scopes.size) e.pos).run { s with scopes := s.scopes.push v } with ⟨stop | t, s₁⟩
    · rw [run_bind_error hr] at h
      cases h
    · rw [run_bind_ok hr] at h
      cases h

theorem exists_env_of_taken {e : Expr} {env : Option Env} {r : Except Stop (Option Ty)}
    (h : (m.taken e env).run s = (r, s')) (hr : r ≠ .ok none) : ∃ v, env = some v := by
  cases env with
  | none => exact absurd (congrArg Prod.fst h).symm hr
  | some v => exact ⟨v, rfl⟩

section

variable {truth : Option Bool} {ends : Narrowed} {s₁ s₂ s₃ : Session} {o o' : Option Ty}
  (hb : (m.branches test scope).run s = (.ok (truth, ends), s₁))

include hb

theorem agree_or_deviates_of_first (ha : (m.taken a ends.whenTrue).run s₁ = (.error stop, s₂))
    (hs : stop = .unreachable → s₂.frames ≠ []) :
    Agree ((m.execBlock [.returns p (some (.conditional q test a b))] scope).run s)
        ((m.execBlock [.branch r test [.returns r₁ (some a)] [.returns r₂ (some b)]] scope).run s) ∨
      m.Deviates q test a b scope s := by
  have halt : (m.alternatives test a b scope).run s = (.error stop, s₂) := by
    unfold Machine.alternatives
    rw [run_bind_ok hb, run_bind_error ha]
  have heval := run_eval_conditional_error (p := q) halt
  rw [run_returns_error (run_bind_error heval)]
  have hfirst := run_branch_returns (p := r₁) ha
  by_cases hstop : stop = .unreachable
  · subst hstop
    rw [returnedTypes, returning_nil] at hfirst
    cases hfalse : ends.whenFalse with
    | none =>
      -- Only the part that always raises can be chosen.
      left
      have hsecond : (inScope? ends.whenFalse (m.execBlock [.returns r₂ (some b)])).run s₂ = (.ok none, s₂) := by
        rw [hfalse]
        rfl
      rw [run_branch_ok hb hfirst hsecond (by simp)]
      exact agree_of_eq rfl fun _ => hs rfl
    | some whenFalse =>
      obtain ⟨whenTrue, htrue⟩ := exists_env_of_taken ha nofun
      right
      obtain ⟨_, _⟩ := ends
      subst htrue hfalse
      exact .raises hb (by rw [heval])
  · left
    have hexec : (m.exec (.branch r test [.returns r₁ (some a)] [.returns r₂ (some b)]) scope).run s =
        (.error stop, s₂.returning []) := by
      unfold Machine.exec
      rw [returnedFlow_error hstop] at hfirst
      rw [run_bind_ok hb, run_bind_error hfirst]
      rfl
    rw [run_branch_error hexec]
    exact agree_of_error hstop

variable (ha : (m.taken a ends.whenTrue).run s₁ = (.ok o, s₂))

include ha

theorem agree_or_deviates_of_second (hc : (m.taken b ends.whenFalse).run s₂ = (.error stop, s₃))
    (hresult : ∀ ts, ((m.taken b ends.whenFalse).run (s₂.returning ts)).1 = .error stop)
    (hsame : stop = .unreachable →
      s₃.frames ≠ [] ∧ ∀ ts, (m.taken b ends.whenFalse).run (s₂.returning ts) = (.error stop, s₃.returning ts)) :
    Agree ((m.execBlock [.returns p (some (.conditional q test a b))] scope).run s)
        ((m.execBlock [.branch r test [.returns r₁ (some a)] [.returns r₂ (some b)]] scope).run s) ∨
      m.Deviates q test a b scope s := by
  have halt : (m.alternatives test a b scope).run s = (.error stop, s₃) := by
    unfold Machine.alternatives
    rw [run_bind_ok hb, run_bind_ok ha, run_bind_error hc]
  have heval := run_eval_conditional_error (p := q) halt
  rw [run_returns_error (run_bind_error heval)]
  have hfirst := run_branch_returns (p := r₁) ha
  by_cases hstop : stop = .unreachable
  · subst hstop
    obtain ⟨hframes, hsame⟩ := hsame rfl
    cases o with
    | none =>
      left
      have hsecond := run_branch_returns (p := r₂) hc
      rw [returnedTypes, returning_nil] at hsecond
      rw [returnedTypes, Option.toList_none, returning_nil] at hfirst
      rw [run_branch_ok hb hfirst hsecond (by simp)]
      exact agree_of_eq rfl fun _ => hframes
    | some t =>
      obtain ⟨whenTrue, htrue⟩ := exists_env_of_taken ha nofun
      obtain ⟨whenFalse, hfalse⟩ := exists_env_of_taken hc nofun
      right
      obtain ⟨_, _⟩ := ends
      subst htrue hfalse
      exact .raises hb (by rw [heval])
  · left
    have hstopped : (m.taken b ends.whenFalse).run (s₂.returning o.toList) = (.error stop, _) :=
      Prod.ext (hresult o.toList) rfl
    have hsecond := run_branch_returns (p := r₂) hstopped
    rw [returnedFlow_error hstop] at hsecond
    have hexec : ∃ s', (m.exec (.branch r test [.returns r₁ (some a)] [.returns r₂ (some b)]) scope).run s =
        (.error stop, s') := by
      unfold Machine.exec
      rw [run_bind_ok hb, run_bind_ok hfirst]
      exact ⟨_, run_bind_error hsecond⟩
    obtain ⟨s', hexec⟩ := hexec
    rw [run_branch_error hexec]
    exact agree_of_error hstop

theorem agree_or_deviates_of_both (hc : (m.taken b ends.whenFalse).run s₂ = (.ok o', s₃))
    (hflat : ∀ t ∈ o.toList ++ o'.toList, t.Flat) (hframes : s₃.frames ≠ [])
    (hsame : ∀ ts, (m.taken b ends.whenFalse).run (s₂.returning ts) = (.ok o', s₃.returning ts)) :
    Agree ((m.execBlock [.returns p (some (.conditional q test a b))] scope).run s)
        ((m.execBlock [.branch r test [.returns r₁ (some a)] [.returns r₂ (some b)]] scope).run s) ∨
      m.Deviates q test a b scope s := by
  have halt : (m.alternatives test a b scope).run s = (.ok (o.toList ++ o'.toList), s₃) := by
    unfold Machine.alternatives
    rw [run_bind_ok hb, run_bind_ok ha, run_bind_ok hc]
    rfl
  have hstatement : (m.execBlock [.branch r test [.returns r₁ (some a)] [.returns r₂ (some b)]] scope).run s =
      (.ok .left, s₃.returning (o.toList ++ o'.toList)) := by
    have hfirst := run_branch_returns (p := r₁) ha
    have hsecond := run_branch_returns (p := r₂) (hsame o.toList)
    rw [returning_returning] at hsecond
    exact run_branch_ok hb hfirst hsecond (by cases o <;> cases o' <;> simp)
  rw [run_returns_ok (run_conditional_ok halt), hstatement]
  by_cases hnone : o.toList ++ o'.toList = []
  · right
    obtain ⟨ho, ho'⟩ := List.append_eq_nil_iff.mp hnone
    rw [Option.toList_eq_nil_iff] at ho ho'
    subst ho ho'
    have htrue := env_eq_none_of_taken ha
    have hfalse := env_eq_none_of_taken hc
    obtain ⟨_, _⟩ := ends
    subst htrue hfalse
    exact .unchosen hb
  by_cases hthrows : ∃ name, Ty.union (o.toList ++ o'.toList) = .throws name
  · right
    obtain ⟨name, hname⟩ := hthrows
    apply Machine.Deviates.exception
    rw [run_eval_conditional, run_bind_ok halt, ← hname]
    rfl
  · left
    have hasType : (Value.type (.union (o.toList ++ o'.toList))).asType = .union (o.toList ++ o'.toList) := by
      generalize Ty.union (o.toList ++ o'.toList) = u at hthrows
      cases u with
      | throws name => exact absurd ⟨name, rfl⟩ hthrows
      | _ => rfl
    rw [hasType]
    refine ⟨rfl, fun _ _ => returnsAlike_returning hframes (by simp [hnone]) fun before => ?_⟩
    refine Ty.union_append_union fun m hm => ?_
    obtain ⟨t, ht, hmt⟩ := List.mem_flatMap.mp hm
    exact (Ty.flat_parts (hflat t ht) hmt).2

end

/-- Returning a conditional expression and branching into returns of its parts agree, unless they deviate. -/
theorem conditional_agrees_with_branch (hm : ∀ name v, cfg.mocks.resolve? name = some v → v.type.Flat)
    (hk : s.Keeps Ty.Flat) (hs : s.frames ≠ []) :
    Agree (((machine cfg n).execBlock [.returns p (some (.conditional q test a b))] scope).run s)
        (((machine cfg n).execBlock [.branch r test [.returns r₁ (some a)] [.returns r₂ (some b)]] scope).run s) ∨
      (machine cfg n).Deviates q test a b scope s := by
  obtain ⟨below, hbelow⟩ := Nat.exists_eq_succ_of_ne_zero (mt List.length_eq_zero_iff.mp hs)
  have hflat := (flat_alternatives (n := n) hm test a b scope s hk).2
  have hbranches : Ignores below 0 ((machine cfg n).branches test scope) fun _ => True := ignores_branches test scope
  have htaken (e : Expr) (env : Option Env) : Ignores below 0 ((machine cfg n).taken e env) fun _ => True :=
    ignores_taken e env
  have hlen := (hbranches s (by omega)).2.1
  have hframes {s : Session} (h : s.frames.length = below + 1) : s.frames ≠ [] := fun he => by simp [he] at h
  generalize machine cfg n = m at *
  rcases hb : (m.branches test scope).run s with ⟨stop | ⟨truth, ends⟩, s₁⟩
  · rw [hb] at hlen
    have halt : (m.alternatives test a b scope).run s = (.error stop, s₁) := run_bind_error hb
    have hexec : (m.exec (.branch r test [.returns r₁ (some a)] [.returns r₂ (some b)]) scope).run s =
        (.error stop, s₁) := by
      unfold Machine.exec
      exact run_bind_error hb
    rw [run_returns_error (run_bind_error (run_eval_conditional_error halt)), run_branch_error hexec]
    exact .inl (agree_of_eq rfl fun hc => hframes ((hlen (continues_of_endedPath hc)).trans hbelow))
  rw [hb] at hlen
  have hlen₁ : s₁.frames.length = below + 1 := (hlen trivial).trans hbelow
  have hfirst := (htaken a ends.whenTrue s₁ (by omega)).2.1
  rcases ha : (m.taken a ends.whenTrue).run s₁ with ⟨stop | o, s₂⟩
  · rw [ha] at hfirst
    exact agree_or_deviates_of_first hb ha fun hstop => hframes ((hfirst hstop).trans hlen₁)
  rw [ha] at hfirst
  have hlen₂ : s₂.frames.length = below + 1 := (hfirst trivial).trans hlen₁
  have hsecond := (htaken b ends.whenFalse s₂ (by omega)).2.1
  have hresult := (htaken b ends.whenFalse).result_returning hlen₂
  have hsame := (htaken b ends.whenFalse).run_returning hlen₂
  rcases hc : (m.taken b ends.whenFalse).run s₂ with ⟨stop | o', s₃⟩
  · rw [hc] at hsecond hresult hsame
    exact agree_or_deviates_of_second hb ha hc hresult fun hstop =>
      ⟨hframes ((hsecond hstop).trans hlen₂), hsame hstop⟩
  · rw [hc] at hsecond hsame
    refine agree_or_deviates_of_both hb ha hc (hflat _ ?_) (hframes ((hsecond trivial).trans hlen₂)) (hsame trivial)
    unfold Machine.alternatives
    rw [run_bind_ok hb, run_bind_ok ha, run_bind_ok hc]
    rfl

def flagSetting : Setting where
  module := { file := "flag" }
  mocks := []
where
  flag : Expr := .name default "flag"
  one : Expr := .constant default (.scalar (.int 1))
  word : Expr := .constant default (.scalar (.string "none"))

def flagSession : Session where
  scopes := #[[("flag", .type .boolean)]]
  frames := [{ depth := 0 }]

theorem flag_conditional_agrees :
    Agree (((machine flagSetting 0).execBlock [.returns default
        (some (.conditional default flagSetting.flag flagSetting.one flagSetting.word))] 0).run flagSession)
      (((machine flagSetting 0).execBlock [.branch default flagSetting.flag [.returns default (some flagSetting.one)]
        [.returns default (some flagSetting.word)]] 0).run flagSession) := by
  have hkeeps : flagSession.Keeps Ty.Flat := by
    constructor <;> simp [flagSession, Env.All, Value.Meets, show Ty.boolean.Flat from rfl]
  have hmocks (name : String) (v : CaseValue) (hv : flagSetting.mocks.resolve? name = some v) : v.type.Flat := by
    rw [show flagSetting.mocks = [] from rfl, MockChain.resolve?_nil] at hv
    cases hv
  refine (conditional_agrees_with_branch hmocks hkeeps (by simp [flagSession])).resolve_right ?_
  intro hdeviates
  cases hdeviates with
  | unchosen h => cases h
  | raises _ h => cases h
  | exception h => cases h

end

end Symbolic

end Casewise
