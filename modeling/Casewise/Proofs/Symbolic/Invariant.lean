import Casewise.Proofs.Symbolic.Actions
import Casewise.Proofs.Symbolic.Execution

namespace Casewise.Symbolic

variable {I : Session → Prop} {K R : Ty → Prop} {A : Nat → Prop} {α β : Type} {s : Session}

def Preserves (I : Session → Prop) (act : Run α) (P : α → Prop) : Prop :=
  ∀ s : Session, I s → I (act.run s).2 ∧ ∀ a, (act.run s).1 = .ok a → P a

theorem preserves_pure {a : α} {P : α → Prop} (ha : P a) : Preserves I (pure a) P :=
  fun _ hs => ⟨hs, fun _ h => Except.ok.inj h ▸ ha⟩

theorem preserves_throw {stop : Stop} {P : α → Prop} : Preserves I (throw stop) P := fun _ hs => ⟨hs, nofun⟩

theorem Preserves.bind {x : Run α} {f : α → Run β} {P : α → Prop} {Q : β → Prop} (hx : Preserves I x P)
    (hf : ∀ a, P a → Preserves I (f a) Q) : Preserves I (x >>= f) Q := by
  intro s hs
  obtain ⟨hs', ha⟩ := hx s hs
  rcases hr : x.run s with ⟨stop | a, s'⟩
  · rw [hr] at hs'
    rw [run_bind_error hr]
    exact ⟨hs', nofun⟩
  · rw [hr] at hs' ha
    rw [run_bind_ok hr]
    exact hf a (ha a rfl) s' hs'

theorem Preserves.mapM {f : α → Run β} {xs : List α} (hf : ∀ a, Preserves I (f a) fun _ => True) :
    Preserves I (xs.mapM f) fun _ => True := by
  induction xs with
  | nil => exact preserves_pure trivial
  | cons a xs ih =>
    simp only [List.mapM_cons]
    exact (hf a).bind fun _ _ => ih.bind fun _ _ => preserves_pure trivial

theorem preserves_liftFault {x : Except Fault α} {P : α → Prop} (hx : Yields x P) : Preserves I (liftFault x) P := by
  cases x with
  | ok a => exact preserves_pure (hx a rfl)
  | error e => cases e <;> exact preserves_throw

theorem Preserves.located {x : Run α} {P : α → Prop} (hx : Preserves I x P) (module : Module) (pos : Extent) :
    Preserves I (located module pos x) P := by
  intro s hs
  obtain ⟨hs', ha⟩ := hx s hs
  rw [run_located]
  refine ⟨hs', fun a h => ha a ?_⟩
  generalize (x.run s).1 = r at h ⊢
  cases r with
  | error stop => cases h
  | ok b => exact h

theorem preserves_modifyGet {g : Session → α × Session} {P : α → Prop} (hg : ∀ s : Session, I s → I (g s).2)
    (ha : ∀ s : Session, I s → P (g s).1) : Preserves I (modifyGet g) P :=
  fun s hs => ⟨hg s hs, fun _ h => Except.ok.inj h ▸ ha s hs⟩

theorem preserves_modify {g : Session → Session} (hg : ∀ s : Session, I s → I (g s)) :
    Preserves I (modify g) fun _ => True := preserves_modifyGet hg fun _ _ => trivial

theorem preserves_read {g : Session → α} {P : α → Prop} (ha : ∀ s : Session, I s → P (g s)) :
    Preserves I (do return g (← get)) P :=
  fun s hs => ⟨hs, fun _ h => Except.ok.inj h ▸ ha s hs⟩

def keeping (I : Session → Prop) (K R : Ty → Prop) (cfg : Setting) (n : Nat) (A : Nat → Prop := fun _ => True) :
    RunLogic Unit where
  setting := cfg
  evaluate _ := (machine cfg n).evaluate
  execute _ := (machine cfg n).execute
  Holds := K
  Raw := R
  At _ _ := A
  Judges _ _ act P := Preserves I (act ()) (P ())

theorem keeping_machine (cfg : Setting) (n : Nat) (i : Unit) : (keeping I K R cfg n A).machine i = machine cfg n :=
  machine_eta cfg n

structure Setting.Invariant (cfg : Setting) (I : Session → Prop) (K R : Ty → Prop)
    (A : Nat → Prop := fun _ => True) : Prop where
  closed : Ty.Closed K
  raw : Ty.Permissive R
  raw_of_holds : ∀ {t}, K t → R t
  mocks : ∀ {name v}, cfg.mocks.resolve? name = some v → K v.type
  marked : ∀ {t}, R t → Preserves I (marked t) K
  newScope : ∀ {env : Env}, env.All (Value.Meets K (fun _ => True) fun _ => True) →
    Preserves I (newScope env) A
  envOf : ∀ scope, Preserves I (envOf scope) (Env.All (Value.Meets K (fun _ => True) fun _ => True))
  changeEnv : ∀ {f : Env → Env} scope, A scope → (∀ env : Env, env.All (Value.Meets K (fun _ => True) fun _ => True) →
    (f env).All (Value.Meets K (fun _ => True) fun _ => True)) → Preserves I (changeEnv scope f) fun _ => True
  newClosure : ∀ c, Preserves I (newClosure c) (Value.Meets K (fun _ => True) fun _ => True)
  constant? : ∀ name, Preserves I (constant? name) fun o => ∀ t, o = some t → K t
  setConstant : ∀ {t} name, K t → Preserves I (setConstant name t) fun _ => True
  changeFrame : ∀ {f : Frame → Frame}, (∀ x returns, f { x with returns } = { f x with returns }) →
    Preserves I (changeFrame f) fun _ => True
  recordReturn : ∀ {t}, K t → Preserves I (recordReturn t) fun _ => True
  pushFrame : ∀ depth, Preserves I (pushFrame depth) fun _ => True
  popFrame : Preserves I popFrame fun frame => ∀ t ∈ frame.returns, K t
  assumed? : ∀ call, Preserves I (assumed? call) fun o => ∀ t, o = some t → K t
  reenter : ∀ call, Preserves I (reenter call) fun _ => True
  assume : ∀ {t} call, K t → Preserves I (assume call t) fun _ => True
  finish : Preserves I finish fun _ => True
  askMocked : ∀ {written path v}, mocked? cfg written path = some v → Preserves I (ask written path) fun _ => True
  askUnmocked : ∀ {written path} pos, mocked? cfg written path = none →
    Preserves I (do ask written path; warnUnmocked cfg written pos) fun _ => True
  reportMissing : ∀ field name pos, Preserves I (reportMissing cfg field name pos) fun _ => True

namespace Setting.Invariant

variable {cfg : Setting} (h : cfg.Invariant I K R A)

include h

theorem lawful (n : Nat) : (keeping I K R cfg n A).Lawful where
  closed := h.closed
  raw := h.raw
  raw_of_holds := h.raw_of_holds
  mocks := h.mocks
  pure_view ha := preserves_pure ha
  bind_view hx hf := Preserves.bind hx fun a ha => hf () a trivial ha
  throw _ := preserves_throw
  located module pos hx := Preserves.located hx module pos
  endingPath {w x} hx s hs := by
    obtain ⟨hs', hflow⟩ := hx s hs
    rw [run_endingPath]
    refine ⟨hs', fun flow h => ?_⟩
    generalize ((x ()).run s).1 = r at h hflow
    cases r with
    | ok a => exact hflow flow h
    | error stop =>
      cases stop with
      | unreachable => exact Except.ok.inj h ▸ RunLogic.FlowsFree.left
      | _ => cases h
  marked := h.marked
  newScope he := h.newScope he
  envOf _ := h.envOf _
  envOf_free := h.envOf
  changeEnv hs hf := h.changeEnv _ hs hf
  newClosure _ _ := h.newClosure _
  closure? _ := preserves_read fun _ _ _ _ => trivial
  constant? := h.constant?
  setConstant := h.setConstant
  changeFrame _ hf := h.changeFrame hf
  recordReturn _ ht := h.recordReturn ht
  handled? := preserves_read fun _ _ => trivial
  nextDepth s hs := by
    rw [run_nextDepth]
    exact ⟨hs, fun _ _ => trivial⟩
  isRunning _ := preserves_read fun _ _ => trivial
  askMocked := h.askMocked
  askUnmocked := h.askUnmocked
  reportMissing := h.reportMissing

theorem tracks (n : Nat) : (keeping I K R cfg n A).Tracks where
  assumed? := h.assumed?
  reenter := h.reenter
  hasReentered _ := preserves_read fun _ _ => trivial
  assume := h.assume
  finish := h.finish

theorem jumps_of {n : Nat}
    (hevaluate : ∀ e scope, A scope →
      Preserves I ((machine cfg n).evaluate e scope) (Value.Meets K (fun _ => True) fun _ => True))
    (hexecute : ∀ body scope, A scope → Preserves I ((machine cfg n).execute body scope) fun _ => True) :
    (keeping I K R cfg n A).Jumps () () := by
  have hl := h.lawful n
  refine hl.jumps_of_evaluate (h.tracks n) ?_ fun e scope _ => hevaluate e scope
  intro w env depth body _ _ _ he
  unfold Machine.runBody
  refine hl.bind (hl.newScope he) fun _ scope _ hscope => ?_
  refine hl.bind (P := fun _ _ => True) (h.pushFrame depth) fun _ _ _ _ => ?_
  refine hl.bind (P := fun _ _ => True) (hexecute body scope hscope) fun _ flow _ _ => ?_
  have hreturn := hl.recordReturn (w := ()) trivial (h.closed.primitive .null)
  exact RunLogic.judge_ite (c := flow.next.isSome) (fun _ => hl.bind hreturn fun _ _ _ _ => h.popFrame)
    fun _ => h.popFrame

theorem evalIn {n : Nat} (hj : (keeping I K R cfg n A).Jumps () ()) (e : Expr) (scope : Nat) (hs : A scope) :
    Preserves I ((machine cfg n).eval e scope) (Value.Meets K (fun _ => True) fun _ => True) := by
  have he := (h.lawful n).evaluates hj e () scope trivial hs
  simp only [keeping_machine] at he
  exact he

theorem execBlockIn {n : Nat} (hj : (keeping I K R cfg n A).Jumps () ()) (body : List Stmt) (scope : Nat)
    (hs : A scope) : Preserves I ((machine cfg n).execBlock body scope) fun _ => True := by
  have hb := (h.lawful n).execBlock hj body () scope trivial trivial hs
  simp only [keeping_machine] at hb
  exact fun s hs => ⟨(hb s hs).1, fun _ _ => trivial⟩

theorem jumps (n : Nat) : (keeping I K R cfg n A).Jumps () () := by
  induction n with
  | zero => exact h.jumps_of (fun _ _ _ s hs => ⟨hs, nofun⟩) fun _ _ _ s hs => ⟨hs, nofun⟩
  | succ n ih => exact h.jumps_of (h.evalIn ih) (h.execBlockIn ih)

theorem runFunction (n : Nat) (name : String) {args : List Ty} (ha : ∀ t ∈ args, K t) :
    Preserves I (runFunction (machine cfg n) name args) fun r => K r.returns ∧ ∀ t ∈ r.params, K t := by
  have hr := (h.lawful n).runFunction (h.jumps n) name (w := ()) trivial trivial ha
  simp only [keeping_machine] at hr
  exact hr

end Setting.Invariant

namespace Setting.Invariant

variable {cfg : Setting} (h : cfg.Invariant I K R) {n : Nat} (hj : (keeping I K R cfg n).Jumps () ())

include h hj

theorem eval (e : Expr) (scope : Nat) :
    Preserves I ((machine cfg n).eval e scope) (Value.Meets K (fun _ => True) fun _ => True) :=
  h.evalIn hj e scope trivial

theorem execBlock (body : List Stmt) (scope : Nat) : Preserves I ((machine cfg n).execBlock body scope) fun _ => True :=
  h.execBlockIn hj body scope trivial

end Setting.Invariant

structure Session.Keeps (K : Ty → Prop) (s : Session) : Prop where
  scopes : ∀ env ∈ s.scopes, Env.All (Value.Meets K (fun _ => True) fun _ => True) env
  returns : ∀ f ∈ s.frames, ∀ t ∈ f.returns, K t
  running : ∀ r ∈ s.running, K r.2
  constants : ∀ c ∈ s.constants, K c.2
  warnings : ∀ d ∈ s.diagnostics, d.severity = .warning

theorem preserves_changeFrame {f : Frame → Frame} (hf : ∀ x, (∀ t ∈ x.returns, K t) → ∀ t ∈ (f x).returns, K t) :
    Preserves (Session.Keeps K) (changeFrame f) fun _ => True := by
  intro s hs
  rw [run_changeFrame]
  refine ⟨{ hs with returns := ?_ }, fun _ _ => trivial⟩
  have hreturns := hs.returns
  cases hframes : s.frames with
  | nil => simp
  | cons x rest =>
    rw [hframes] at hreturns
    obtain ⟨hx, hrest⟩ := List.forall_mem_cons.mp hreturns
    exact List.forall_mem_cons.mpr ⟨hf x hx, hrest⟩

theorem preserves_popFrame : Preserves (Session.Keeps K) popFrame fun frame => ∀ t ∈ frame.returns, K t := by
  intro s hs
  rcases s with ⟨_, _, _ | ⟨x, rest⟩, _, _, _, _, _, _⟩
  · exact ⟨hs, fun _ h => Except.ok.inj h ▸ by simp⟩
  · obtain ⟨hx, hrest⟩ := List.forall_mem_cons.mp hs.returns
    exact ⟨{ hs with returns := hrest }, fun _ h => Except.ok.inj h ▸ hx⟩

theorem preserves_reportOnce {d : Diagnostic} (hd : d.severity = .warning) (covers : Diagnostic → Bool) :
    Preserves (Session.Keeps K) (reportOnce d covers) fun _ => True := by
  refine preserves_modify fun s hs => ?_
  split
  · exact hs
  · exact { hs with warnings := List.forall_mem_append.mpr ⟨hs.warnings, List.forall_mem_singleton.mpr hd⟩ }

theorem preserves_ask (written path : String) : Preserves (Session.Keeps K) (ask written path) fun _ => True :=
  preserves_modify fun _ hs => { hs with }

theorem Session.Keeps.envOf (hs : s.Keeps K) (scope : Nat) :
    Env.All (Value.Meets K (fun _ => True) fun _ => True) ((s.scopes[scope]?).getD []) := by
  cases h : s.scopes[scope]? with
  | none => simp [Env.All]
  | some env => exact hs.scopes env (Array.mem_of_getElem? h)

structure Setting.Keeps (K R : Ty → Prop) (cfg : Setting) : Prop where
  closed : Ty.Closed K
  raw : Ty.Permissive R
  raw_of_holds : ∀ t, K t → R t
  marked : ∀ t supply, R t → K ((t.mapNumbers Number.mark).run supply).1
  mocks : ∀ name v, cfg.mocks.resolve? name = some v → K v.type

theorem Setting.Keeps.invariant {cfg : Setting} (h : cfg.Keeps K R) : cfg.Invariant (Session.Keeps K) K R where
  closed := h.closed
  raw := h.raw
  raw_of_holds := h.raw_of_holds _
  mocks hv := h.mocks _ _ hv
  marked ht := preserves_modifyGet (fun _ hs => { hs with }) fun s _ => h.marked _ s.supply ht
  newScope he := by
    refine preserves_modifyGet (fun _ hs => { hs with scopes := fun env henv => ?_ }) fun _ _ => trivial
    rcases Array.mem_push.mp henv with henv | rfl
    · exact hs.scopes env henv
    · exact he
  envOf scope := preserves_read fun _ hs => hs.envOf scope
  changeEnv scope _ hf := by
    refine preserves_modify fun _ hs => { hs with scopes := fun env henv => ?_ }
    obtain ⟨i, hi, rfl⟩ := Array.mem_iff_getElem.mp henv
    rw [Array.size_modify] at hi
    rw [Array.getElem_modify]
    have hold := hs.scopes _ (Array.getElem_mem hi)
    split
    · exact hf _ hold
    · exact hold
  newClosure _ := preserves_modifyGet (fun _ hs => { hs with }) fun _ _ => trivial
  constant? name := preserves_read fun _ hs t ht => hs.constants _ (Bindings.mem_of_get? ht)
  setConstant name ht :=
    preserves_modify fun _ hs => { hs with constants := Bindings.forall_mem_set _ hs.constants ht }
  changeFrame {f} hf := preserves_changeFrame fun x hx => by
    have hreturns : f x = { f x with returns := x.returns } := hf x x.returns
    rw [hreturns]
    exact hx
  recordReturn ht := preserves_changeFrame fun x hx u hu => by
    rcases List.mem_append.mp hu with hu | hu
    · exact hx u hu
    · exact List.mem_singleton.mp hu ▸ ht
  pushFrame _ := preserves_modify fun _ hs => { hs with returns := List.forall_mem_cons.mpr ⟨by simp, hs.returns⟩ }
  popFrame := preserves_popFrame
  assumed? call := preserves_read fun _ hs t ht => by
    obtain ⟨r, hr, rfl⟩ := Option.map_eq_some_iff.mp ht
    exact hs.running r (List.mem_of_find?_eq_some hr)
  reenter _ := preserves_modify fun _ hs => { hs with }
  assume call ht := preserves_modify fun _ hs =>
    { hs with running := List.forall_mem_cons.mpr ⟨ht, fun r hr => hs.running r (List.mem_of_mem_filter hr)⟩ }
  finish := preserves_modify fun _ hs => { hs with running := fun r hr => hs.running r (List.mem_of_mem_tail hr) }
  askMocked _ := preserves_ask _ _
  askUnmocked pos _ := (preserves_ask _ _).bind fun _ _ => preserves_reportOnce rfl _
  reportMissing _ _ _ := preserves_reportOnce rfl _

theorem Setting.keeps_true (cfg : Setting) : cfg.Keeps (fun _ => True) fun _ => True :=
  ⟨Ty.permissive_true.toClosed, Ty.permissive_true, fun _ => id, fun _ _ => id, fun _ _ _ => trivial⟩

theorem severity_of_mem_runWithin {cfg : Setting} {n : Nat} {name : String} {args : List Ty} {d : Diagnostic}
    (hd : d ∈ (runWithin n cfg name args).2) : d.severity = .warning := by
  generalize hg : (given cfg args).run ⟨cfg.number, 0⟩ = g at hd
  have hargs : ∀ t ∈ g.1.2, True := fun _ _ => trivial
  have hrun := g.1.1.keeps_true.invariant.runFunction n name hargs { supply := g.2 }
    ⟨by simp, by simp, by simp, by simp, by simp⟩
  unfold runWithin at hd
  rw [hg] at hd
  exact hrun.1.warnings d hd

end Casewise.Symbolic
