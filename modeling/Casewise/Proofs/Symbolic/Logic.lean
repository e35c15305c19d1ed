import Casewise.Proofs.Binding
import Casewise.Proofs.Symbolic.Environment
import Casewise.Symbolic.Run

/-!
A logic for runs on types. A logic judges families of actions, one for each index: what a judgement says of a family
is up to the logic, which only has to have a rule for each thing that an action can do to a session. A scope may have
another number at each index, so that a result with scopes is not the same everywhere. Bodies, defaults and constants
are not parts of the code that reaches them, so a logic is also given what it judges of these jumps.
-/

namespace Casewise.Symbolic

/-- What becomes of a result when the scopes in it get other numbers. -/
@[ext] structure Renaming (α : Type) where
  apply : (Nat → Nat) → α → α
  apply_id : ∀ a, apply (fun s => s) a = a

namespace Renaming

variable {α : Type}

def fixed : Renaming α := ⟨fun _ a => a, fun _ => rfl⟩

def scope : Renaming Nat := ⟨fun f s => f s, fun _ => rfl⟩

def closure : Renaming Closure := ⟨fun f c => { c with scope := f c.scope }, fun _ => rfl⟩

def flow : Renaming Flow := ⟨fun f x => ⟨x.next.map f, x.breaks.map f, x.continues.map f⟩, fun _ => by simp⟩

def option (ρ : Renaming α) : Renaming (Option α) :=
  ⟨fun f => Option.map (ρ.apply f), fun o => by cases o <;> simp [ρ.apply_id]⟩

def list (ρ : Renaming α) : Renaming (List α) := ⟨fun f => List.map (ρ.apply f), fun l => by simp [funext ρ.apply_id]⟩

theorem option_fixed : (fixed : Renaming α).option = fixed :=
  Renaming.ext (funext fun _ => funext fun o => by cases o <;> rfl)

theorem list_fixed : (fixed : Renaming α).list = fixed :=
  Renaming.ext (funext fun _ => funext List.map_id')

end Renaming

structure RunLogic (ι : Type) where
  setting : Setting
  evaluate : ι → Expr → Nat → Run Value
  execute : ι → List Stmt → Nat → Run Flow
  /-- What is known of a session. -/
  World : Type := Unit
  later : World → World → Prop := fun _ _ => True
  /-- What code may refer to. -/
  Level : Type := Unit
  free : Level := by exact ()
  Holds : Ty → Prop := fun _ => True
  Raw : Ty → Prop := fun _ => True
  Admits : Level → Expr → Prop := fun _ _ => True
  Closes : Level → Params Expr → Prop := fun _ _ => True
  Knows : Level → String → Prop := fun _ _ => True
  Made : World → Level → Nat → Prop := fun _ _ _ => True
  At : World → Level → Nat → Prop := fun _ _ _ => True
  Body : World → Prop := fun _ => True
  Depth : World → Int → Prop := fun _ _ => True
  /-- A result as it is at the index. -/
  view : ι → {α : Type} → Renaming α → α → α := fun _ _ _ a => a
  Judges : {α : Type} → Renaming α → World → (ι → Run α) → (World → α → Prop) → Prop

namespace RunLogic

variable {ι : Type} (L : RunLogic ι)

def number (i : ι) (s : Nat) : Nat := L.view i .scope s

abbrev Judge {α : Type} (w : L.World) (x : ι → Run α) (P : L.World → α → Prop) : Prop := L.Judges .fixed w x P

def machine (i : ι) : Machine := ⟨L.setting, L.evaluate i, L.execute i⟩

@[simp] theorem machine_setting (i : ι) : (L.machine i).setting = L.setting := rfl

@[simp] theorem machine_module (i : ι) : (L.machine i).module = L.setting.module := rfl

def Fits (w : L.World) (l : L.Level) : Value → Prop := Value.Meets L.Holds (L.Knows l) (L.Made w l)

structure FlowsFree (w : L.World) (flow : Flow) : Prop where
  next : ∀ s, flow.next = some s → L.At w L.free s
  breaks : ∀ s ∈ flow.breaks, L.At w L.free s
  continues : ∀ s ∈ flow.continues, L.At w L.free s

structure Lawful : Prop where
  refl : ∀ w, L.later w w := by intros; trivial
  trans : ∀ {u v w}, L.later u v → L.later v w → L.later u w := by intros; trivial
  closed : Ty.Closed L.Holds := by exact Ty.permissive_true.toClosed
  raw : Ty.Permissive L.Raw := by exact Ty.permissive_true
  raw_of_holds : ∀ {t}, L.Holds t → L.Raw t := by intros; trivial
  mocks : ∀ {name v}, L.setting.mocks.resolve? name = some v → L.Holds v.type := by intros; trivial
  -- levels
  operand : ∀ {l e c}, L.Admits l e → c ∈ e.operands → L.Admits l c := by intros; trivial
  name : ∀ {l p n}, L.Admits l (.name p n) → L.setting.mocks.resolve? n = none → L.Knows l n := by intros; trivial
  lambda : ∀ {l p params body}, L.Admits l (.lambda p params body) → L.Closes l params := by intros; trivial
  function : ∀ {l n f}, L.Knows l n → L.setting.module.functions.get? n = some f → L.Closes l f.params := by
    intros; trivial
  admits_free : ∀ e, L.Admits L.free e := by intros; trivial
  closes_free : ∀ params, L.Closes L.free params := by intros; trivial
  knows_free : ∀ n, L.Knows L.free n := by intros; trivial
  made_free : ∀ w id, L.Made w L.free id := by intros; trivial
  -- worlds
  made_later : ∀ {w w' l id}, L.later w w' → L.Made w l id → L.Made w' l id := by intros; trivial
  at_later : ∀ {w w' l s}, L.later w w' → L.At w l s → L.At w' l s := by intros; trivial
  body_later : ∀ {w w'}, L.later w w' → L.Body w → L.Body w' := by intros; trivial
  depth_later : ∀ {w w' d}, L.later w w' → L.Depth w d → L.Depth w' d := by intros; trivial
  -- actions
  view_eq : ∀ (i : ι) {α : Type} (ρ : Renaming α) (a : α), L.view i ρ a = ρ.apply (L.number i) a := by
    intro _ _ ρ a; exact (ρ.apply_id a).symm
  pure_view : ∀ {α : Type} {ρ : Renaming α} {w} {a : α} {P : L.World → α → Prop}, P w a →
    L.Judges ρ w (fun i => Pure.pure (L.view i ρ a)) P
  bind_view : ∀ {α β : Type} {ρ : Renaming α} {τ : Renaming β} {w} {x : ι → Run α} {f : ι → α → Run β}
    {P : L.World → α → Prop} {Q : L.World → β → Prop}, L.Judges ρ w x P →
    (∀ w' a, L.later w w' → P w' a → L.Judges τ w' (fun i => f i (L.view i ρ a)) Q) →
      L.Judges τ w (fun i => x i >>= f i) Q
  throw : ∀ {α : Type} {ρ : Renaming α} {w} {stop : Stop} {P : L.World → α → Prop}, stop ≠ .exhausted →
    L.Judges ρ w (fun _ => throw stop) P
  located : ∀ {α : Type} {ρ : Renaming α} {w} {x : ι → Run α} {P : L.World → α → Prop} (module : Module) (pos : Extent),
    L.Judges ρ w x P → L.Judges ρ w (fun i => located module pos (x i)) P
  endingPath : ∀ {w} {x : ι → Run Flow}, L.Judges .flow w x L.FlowsFree →
    L.Judges .flow w (fun i => endingPath (x i)) L.FlowsFree
  marked : ∀ {w t}, L.Raw t → L.Judge w (fun _ => marked t) fun _ t => L.Holds t
  -- scopes and closures
  newScope : ∀ {w l env}, env.All (L.Fits w l) → L.Judges .scope w (fun _ => newScope env) fun w s => L.At w l s
  envOf : ∀ {w l s}, L.At w l s → L.Judge w (fun i => envOf (L.number i s)) fun w env => env.All (L.Fits w l)
  envOf_free : ∀ {w} (s : Nat),
    L.Judge w (fun i => Symbolic.envOf (L.number i s)) fun w env => env.All (L.Fits w L.free)
  changeEnv : ∀ {w l s} {f : Env → Env}, L.At w l s →
    (∀ env : Env, env.All (L.Fits w l) → (f env).All (L.Fits w l)) →
      L.Judge w (fun i => changeEnv (L.number i s) f) fun _ _ => True
  newClosure : ∀ {w l c}, L.Closes l c.params → L.At w l c.scope →
    L.Judge w (fun i => newClosure (Renaming.closure.apply (L.number i) c)) fun w v => L.Fits w l v
  closure? : ∀ {w l id}, L.Made w l id →
    L.Judges (.option .closure) w (fun _ => closure? id) fun _ c => ∀ d, c = some d → L.Closes l d.params
  constant? : ∀ {w} (name : String), L.Judge w (fun _ => constant? name) fun _ o => ∀ t, o = some t → L.Holds t
  setConstant : ∀ {w t} (name : String), L.Holds t → L.Judge w (fun _ => setConstant name t) fun _ _ => True
  -- frames
  changeFrame : ∀ {w} {f : Frame → Frame}, (∀ x, (f x).depth = x.depth) →
    (∀ x returns, f { x with returns } = { f x with returns }) → L.Judge w (fun _ => changeFrame f) fun _ _ => True
  recordReturn : ∀ {w t}, L.Body w → L.Holds t → L.Judge w (fun _ => recordReturn t) fun _ _ => True
  handled? : ∀ {w}, L.Judge w (fun _ => handled?) fun _ _ => True
  nextDepth : ∀ {w}, L.Judge w (fun _ => nextDepth) fun w d => L.Depth w d
  isRunning : ∀ {w} (name : String), L.Judge w (fun _ => isRunning name) fun _ _ => True
  -- external symbols and warnings
  askMocked : ∀ {w written path v}, mocked? L.setting written path = some v →
    L.Judge w (fun _ => ask written path) fun _ _ => True
  askUnmocked : ∀ {w written path} (pos : Extent), mocked? L.setting written path = none →
    L.Judge w (fun _ => do ask written path; warnUnmocked L.setting written pos) fun _ _ => True
  reportMissing : ∀ {w} (field name : String) (pos : Extent),
    L.Judge w (fun _ => reportMissing L.setting field name pos) fun _ _ => True

structure Tracks : Prop where
  assumed? : ∀ {w} (call : Call), L.Judge w (fun _ => assumed? call) fun _ o => ∀ t, o = some t → L.Holds t
  reenter : ∀ {w} (call : Call), L.Judge w (fun _ => reenter call) fun _ _ => True
  hasReentered : ∀ {w} (call : Call), L.Judge w (fun _ => hasReentered call) fun _ _ => True
  assume : ∀ {w t} (call : Call), L.Holds t → L.Judge w (fun _ => assume call t) fun _ _ => True
  finish : ∀ {w}, L.Judge w (fun _ => finish) fun _ _ => True

structure Jumps (l : L.Level) (start : L.World) : Prop where
  constant : ∀ {w name e}, L.later start w → L.setting.module.constants.get? name = some e →
    L.Judge w (fun i => (L.machine i).constant name e) fun _ t => L.Holds t
  default : ∀ {w params e}, L.later start w → L.Closes l params → e ∈ params.defaultValues →
    L.Judge w (fun i => (L.machine i).outside e) fun _ t => L.Holds t
  body : ∀ {w env depth} (body : List Stmt), L.later start w → L.Depth w depth → depth ≤ L.setting.limits.depth →
    env.All (L.Fits w L.free) →
    L.Judge w (fun i => (L.machine i).runBody body env depth) fun _ frame => ∀ t ∈ frame.returns, L.Holds t
  call : ∀ {w env depth} (f : FunctionDef Stmt), L.later start w → L.Depth w depth → env.All (L.Fits w l) →
    L.Judge w (fun i => (L.machine i).callFunction f env depth) fun _ o => L.Holds o.returns

section

variable {L}

theorem judge_ite {α : Type} {ρ : Renaming α} {w : L.World} {c : Prop} [Decidable c] {x y : ι → Run α}
    {P : L.World → α → Prop} (hx : c → L.Judges ρ w x P) (hy : ¬ c → L.Judges ρ w y P) :
    L.Judges ρ w (fun i => if c then x i else y i) P := by
  by_cases hc : c
  · simpa only [hc, if_true] using hx hc
  · simpa only [hc, if_false] using hy hc

end

namespace Lawful

variable {L} (h : L.Lawful) {w w' : L.World} {l : L.Level} {α β : Type}

include h

theorem values (w : L.World) (l : L.Level) : Value.Closed L.Holds (L.Fits w l) := ⟨h.closed, .rfl⟩

theorem fits_later (hw : L.later w w') {v : Value} (hv : L.Fits w l v) : L.Fits w' l v := by
  cases v with
  | closure id n => exact h.made_later hw hv
  | _ => exact hv

theorem fits_free {v : Value} (hv : L.Fits w l v) : L.Fits w L.free v := by
  cases v with
  | function n _ => exact h.knows_free n
  | closure id _ => exact h.made_free w id
  | _ => exact hv

theorem all_later (hw : L.later w w') {env : Env} (he : env.All (L.Fits w l)) : env.All (L.Fits w' l) :=
  fun b hb => h.fits_later hw (he b hb)

theorem all_free {env : Env} (he : env.All (L.Fits w l)) : env.All (L.Fits w L.free) :=
  fun b hb => h.fits_free (he b hb)

theorem ends_later (hw : L.later w w') {n : Narrowed} (hn : n.All (L.Fits w l)) : n.All (L.Fits w' l) where
  whenTrue env he := h.all_later hw (hn.whenTrue env he)
  whenFalse env he := h.all_later hw (hn.whenFalse env he)

theorem flows_later (hw : L.later w w') {flow : Flow} (hf : L.FlowsFree w flow) : L.FlowsFree w' flow where
  next s hs := h.at_later hw (hf.next s hs)
  breaks s hs := h.at_later hw (hf.breaks s hs)
  continues s hs := h.at_later hw (hf.continues s hs)

theorem pureAs (ρ : Renaming α) (a : α) {P : L.World → α → Prop} (ha : P w a) :
    L.Judges ρ w (fun i => Pure.pure (ρ.apply (L.number i) a)) P := by
  simp only [← h.view_eq]
  exact h.pure_view ha

theorem bindAs {ρ : Renaming α} {τ : Renaming β} {x : ι → Run α} {f : ι → α → Run β} {P : L.World → α → Prop}
    {Q : L.World → β → Prop} (hx : L.Judges ρ w x P)
    (hf : ∀ w' a, L.later w w' → P w' a → L.Judges τ w' (fun i => f i (ρ.apply (L.number i) a)) Q) :
    L.Judges τ w (fun i => x i >>= f i) Q := by
  simp only [← h.view_eq] at hf
  exact h.bind_view hx hf

theorem pure {a : α} {P : L.World → α → Prop} (ha : P w a) : L.Judge w (fun _ => Pure.pure a) P :=
  h.pureAs .fixed a ha

theorem bind {τ : Renaming β} {x : ι → Run α} {f : ι → α → Run β} {P : L.World → α → Prop} {Q : L.World → β → Prop}
    (hx : L.Judge w x P) (hf : ∀ w' a, L.later w w' → P w' a → L.Judges τ w' (fun i => f i a) Q) :
    L.Judges τ w (fun i => x i >>= f i) Q :=
  h.bindAs hx hf

theorem mono {ρ : Renaming α} {x : ι → Run α} {P Q : L.World → α → Prop} (hx : L.Judges ρ w x P)
    (hpq : ∀ w' a, L.later w w' → P w' a → Q w' a) : L.Judges ρ w x Q := by
  have hb : L.Judges ρ w (fun i => x i >>= fun a => Pure.pure a) Q :=
    h.bindAs hx fun w' a hw ha => h.pureAs ρ a (hpq w' a hw ha)
  simpa only [bind_pure] using hb

theorem liftFault {x : Except Fault α} {P : L.World → α → Prop} (hx : Yields x (P w)) :
    L.Judge w (fun _ => liftFault x) P := by
  cases x with
  | ok a => exact h.pure (hx a rfl)
  | error e =>
    cases e with
    | undefined cause => exact h.throw nofun
    | tooLong => exact h.throw nofun
    | outOfMemory => exact h.throw nofun

theorem computed {x : Except Fault Ty} (hx : Yields x L.Raw) :
    L.Judge w (fun _ => computed x) fun _ t => L.Holds t :=
  h.bind (P := fun _ => L.Raw) (h.liftFault hx) fun _ _ _ ht => h.marked ht

theorem mapAs (ρ : Renaming α) {τ : Renaming β} {xs : List α} {f : ι → α → Run β} {P : L.World → β → Prop}
    (lasts : ∀ {w w' b}, L.later w w' → P w b → P w' b)
    (hf : ∀ w', L.later w w' → ∀ a ∈ xs, L.Judges τ w' (fun i => f i (ρ.apply (L.number i) a)) P) :
    L.Judges τ.list w (fun i => (xs.map (ρ.apply (L.number i))).mapM (f i)) fun w bs => ∀ b ∈ bs, P w b := by
  induction xs generalizing w with
  | nil => exact h.pureAs τ.list [] (by simp)
  | cons a xs ih =>
    simp only [List.map_cons, List.mapM_cons]
    refine h.bindAs (hf w (h.refl w) a (by simp)) fun w₁ b hw₁ hb => ?_
    have hrest := ih fun w₂ hw₂ c hc => hf w₂ (h.trans hw₁ hw₂) c (List.mem_cons_of_mem a hc)
    refine h.bindAs hrest fun w₂ bs hw₂ hbs => h.pureAs τ.list (b :: bs) ?_
    exact List.forall_mem_cons.mpr ⟨lasts hw₂ hb, hbs⟩

theorem mapM {xs : List α} {f : ι → α → Run β} {P : L.World → β → Prop}
    (lasts : ∀ {w w' b}, L.later w w' → P w b → P w' b)
    (hf : ∀ w', L.later w w' → ∀ a ∈ xs, L.Judge w' (fun i => f i a) P) :
    L.Judge w (fun i => xs.mapM (f i)) fun w bs => ∀ b ∈ bs, P w b := by
  have hmap := h.mapAs .fixed (P := P) lasts hf
  have hxs (i : ι) : xs.map (Renaming.fixed.apply (L.number i)) = xs := xs.map_id'
  rw [Renaming.list_fixed] at hmap
  simpa only [hxs] using hmap

theorem forM {xs : List α} {f : ι → α → Run Unit}
    (hf : ∀ w', L.later w w' → ∀ a ∈ xs, L.Judge w' (fun i => f i a) fun _ _ => True) :
    L.Judge w (fun i => xs.forM (f i)) fun _ _ => True := by
  induction xs generalizing w with
  | nil => exact h.pure trivial
  | cons a xs ih =>
    refine h.bind (hf w (h.refl w) a (by simp)) fun w₁ _ hw₁ _ => ih fun w₂ hw₂ c hc => ?_
    exact hf w₂ (h.trans hw₁ hw₂) c (List.mem_cons_of_mem a hc)

theorem inScopeAs? {ρ : Renaming α} {env : Option Env} {act : ι → Nat → Run α} {P : L.World → α → Prop}
    (he : ∀ e, env = some e → e.All (L.Fits w l))
    (hact : ∀ w' s, L.later w w' → L.At w' l s → L.Judges ρ w' (fun i => act i (L.number i s)) P) :
    L.Judges ρ.option w (fun i => inScope? env (act i)) fun w o => ∀ a, o = some a → P w a := by
  cases env with
  | none => exact h.pureAs ρ.option none (by simp)
  | some env =>
    refine h.bindAs (h.newScope (he env rfl)) fun w₁ s hw₁ hs => h.bindAs (hact w₁ s hw₁ hs) fun w₂ a hw₂ ha => ?_
    exact h.pureAs ρ.option (some a) fun b hb => Option.some.inj hb ▸ ha

theorem inScope? {env : Option Env} {act : ι → Nat → Run α} {P : L.World → α → Prop}
    (he : ∀ e, env = some e → e.All (L.Fits w l))
    (hact : ∀ w' s, L.later w w' → L.At w' l s → L.Judge w' (fun i => act i (L.number i s)) P) :
    L.Judge w (fun i => inScope? env (act i)) fun w o => ∀ a, o = some a → P w a := by
  have hscope := h.inScopeAs? he hact
  rwa [Renaming.option_fixed] at hscope

theorem copyScope {s : Nat} (hs : L.At w l s) :
    L.Judges .scope w (fun i => copyScope (L.number i s)) fun w s => L.At w l s :=
  h.bind (h.envOf hs) fun _ _ _ he => h.newScope he

theorem assignName {s : Nat} {v : Value} (name : String) (hs : L.At w l s) (hv : L.Fits w l v) :
    L.Judge w (fun i => assignName (L.number i s) name v) fun _ _ => True :=
  h.changeEnv hs fun _ he => he.set hv name

theorem recordRaise (name : String) : L.Judge w (fun _ => recordRaise name) fun _ _ => True := by
  refine h.changeFrame (fun x => ?_) fun x returns => ?_
  · split <;> rfl
  · dsimp only
    split <;> rfl

theorem narrowed {test : Expr} {s : Nat} (hs : L.At w l s) :
    L.Judge w (fun i => narrowed test (L.number i s)) fun w n => n.All (L.Fits w l) :=
  h.bind (h.envOf hs) fun w₁ _ _ he => h.liftFault ((h.values w₁ l).narrow test _ he)

theorem warnMissingField (field : String) (t : Ty) (pos : Extent) :
    L.Judge w (fun _ => warnMissingField L.setting field t pos) fun _ _ => True :=
  h.bind (P := fun _ _ => True) (h.liftFault fun _ _ => trivial) fun _ name _ _ => h.reportMissing field name pos

theorem mocked {written path : String} {v : CaseValue} (hv : mocked? L.setting written path = some v) :
    L.Holds v.type := by
  rcases Option.or_eq_some_iff.mp hv with hv | ⟨_, hv⟩
  · exact h.mocks hv
  · exact h.mocks hv

theorem force {v : Value} (pos : Extent) (hv : L.Fits w l v) :
    L.Judge w (fun i => (L.machine i).force v pos) fun _ t => L.Holds t := by
  cases v with
  | external written path =>
    show L.Judge w (fun _ => Symbolic.force L.setting (.external written path) pos) _
    unfold Symbolic.force
    dsimp only
    split
    · next hm => exact h.bind (h.askMocked hm) fun _ _ _ _ => h.pure (h.mocked hm)
    · next hm =>
      simp only [← bind_assoc]
      exact h.bind (h.askUnmocked pos hm) fun _ _ _ _ => h.pure h.closed.unknown
  | type t => exact h.pure ((h.values w l).asType hv)
  | function n k => exact h.pure ((h.values w l).asType hv)
  | builtin n => exact h.pure ((h.values w l).asType (v := .builtin n) hv)
  | method r n t => exact h.pure ((h.values w l).asType (v := .method r n t) hv)
  | closure id k => exact h.pure ((h.values w l).asType hv)

theorem forced {x : ι → Run Value} (pos : Extent) (hx : L.Judge w x fun w v => L.Fits w l v) :
    L.Judge w (fun i => (L.machine i).forced (x i) pos) fun _ t => L.Holds t :=
  h.bind hx fun _ _ _ hv => h.force pos hv

theorem outside {e : Expr} (he : ∀ w' s, L.later w w' → L.At w' l s →
    L.Judge w' (fun i => L.evaluate i e (L.number i s)) fun w v => L.Fits w l v) :
    L.Judge w (fun i => (L.machine i).outside e) fun _ t => L.Holds t :=
  h.bindAs (h.newScope (l := l) nofun) fun w₁ s hw₁ hs => h.forced e.pos (he w₁ s hw₁ hs)

theorem constantOf {name : String} {e : Expr}
    (he : ∀ w', L.later w w' → L.Judge w' (fun i => (L.machine i).outside e) fun _ t => L.Holds t) :
    L.Judge w (fun i => (L.machine i).constant name e) fun _ t => L.Holds t := by
  unfold Machine.constant
  refine h.bind (h.constant? name) fun w₁ found hw₁ hfound => ?_
  split
  · next t => exact h.pure (hfound t rfl)
  · refine h.bind (h.setConstant name h.closed.unknown) fun w₂ _ hw₂ _ => ?_
    refine h.bind (he w₂ (h.trans hw₁ hw₂)) fun _ t _ ht => ?_
    exact h.bind (h.setConstant name ht) fun _ _ _ _ => h.pure ht

end Lawful

end RunLogic

end Casewise.Symbolic
