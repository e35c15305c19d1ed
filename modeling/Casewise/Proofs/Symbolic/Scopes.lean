import Casewise.Proofs.Symbolic.Invariant

namespace Casewise.Symbolic

variable {α : Type} {old : Array Env} {s : Session}

def Session.Retains (old : Array Env) (s : Session) : Prop := ∀ i < old.size, s.scopes[i]? = old[i]?

theorem Session.retains_self (s : Session) : s.Retains s.scopes := fun _ _ => rfl

theorem Session.Retains.size_le (h : s.Retains old) : old.size ≤ s.scopes.size := by
  cases hsize : old.size with
  | zero => exact Nat.zero_le _
  | succ k =>
    have hk : k < old.size := by omega
    have hlast := h k hk
    rw [Array.getElem?_eq_getElem hk] at hlast
    exact (Array.getElem?_eq_some_iff.mp hlast).1

theorem Session.Retains.trans (h : s.Retains old) {s' : Session} (h' : s'.Retains s.scopes) : s'.Retains old :=
  fun i hi => (h' i (Nat.lt_of_lt_of_le hi h.size_le)).trans (h i hi)

abbrev sparing (old : Array Env) (cfg : Setting) (n : Nat) : RunLogic Unit :=
  keeping (Session.Retains old) (fun _ => True) (fun _ => True) cfg n (old.size ≤ ·)

theorem retains_newScope (env : Env) : Preserves (Session.Retains old) (newScope env) (old.size ≤ ·) := by
  refine preserves_modifyGet (fun s hs i hi => ?_) fun s hs => hs.size_le
  have hne : i ≠ s.scopes.size := Nat.ne_of_lt (Nat.lt_of_lt_of_le hi hs.size_le)
  rw [Array.getElem?_push, if_neg hne]
  exact hs i hi

theorem retains_copyScope (scope : Nat) : Preserves (Session.Retains old) (copyScope scope) (old.size ≤ ·) :=
  Preserves.bind (P := fun _ => True) (preserves_read fun _ _ => trivial) fun env _ => retains_newScope env

theorem retains_changeEnv {scope : Nat} (hscope : old.size ≤ scope) (f : Env → Env) :
    Preserves (Session.Retains old) (changeEnv scope f) fun _ => True := by
  refine preserves_modify fun s hs i hi => ?_
  have hne : scope ≠ i := by omega
  rw [Array.getElem?_modify, if_neg hne]
  exact hs i hi

theorem retains_changeFrame (f : Frame → Frame) :
    Preserves (Session.Retains old) (changeFrame f) fun _ => True := by
  intro s hs
  rw [run_changeFrame]
  exact ⟨hs, fun _ _ => trivial⟩

theorem retains_reportOnce (d : Diagnostic) (covers : Diagnostic → Bool) :
    Preserves (Session.Retains old) (reportOnce d covers) fun _ => True := by
  intro s hs
  rw [run_reportOnce]
  exact ⟨hs, fun _ _ => trivial⟩

theorem Setting.retains (cfg : Setting) (old : Array Env) :
    cfg.Invariant (Session.Retains old) (fun _ => True) (fun _ => True) (old.size ≤ ·) where
  closed := Ty.permissive_true.toClosed
  raw := Ty.permissive_true
  raw_of_holds := id
  mocks _ := trivial
  marked _ := preserves_modifyGet (fun _ hs => hs) fun _ _ => trivial
  newScope _ := retains_newScope _
  envOf _ := preserves_read fun _ _ _ _ => Value.meets_true _
  changeEnv _ hscope _ := retains_changeEnv hscope _
  newClosure _ := preserves_modifyGet (fun _ hs => hs) fun _ _ => trivial
  constant? _ := preserves_read fun _ _ _ _ => trivial
  setConstant _ _ := preserves_modify fun _ hs => hs
  changeFrame _ := retains_changeFrame _
  recordReturn _ := retains_changeFrame _
  pushFrame _ := preserves_modify fun _ hs => hs
  popFrame := by
    rintro ⟨_, _, _ | ⟨x, rest⟩, _, _, _, _, _, _⟩ hs <;> exact ⟨hs, fun _ _ _ _ => trivial⟩
  assumed? _ := preserves_read fun _ _ _ _ => trivial
  reenter _ := preserves_modify fun _ hs => hs
  assume _ _ := preserves_modify fun _ hs => hs
  finish := preserves_modify fun _ hs => hs
  askMocked _ := preserves_modify fun _ hs => hs
  askUnmocked _ _ :=
    Preserves.bind (P := fun _ => True) (preserves_modify fun _ hs => hs) fun _ _ => retains_reportOnce _ _
  reportMissing _ _ _ := retains_reportOnce _ _

def Apart (act : Run α) : Prop := ∀ s : Session, (act.run s).2.Retains s.scopes

namespace Apart

variable {β : Type}

theorem pure (a : α) : Apart (Pure.pure a) := fun s => s.retains_self

theorem bind {x : Run α} {f : α → Run β} (hx : Apart x) (hf : ∀ a, Apart (f a)) : Apart (x >>= f) := by
  intro s
  have hs := hx s
  rcases hr : x.run s with ⟨stop | a, s'⟩
  · rw [hr] at hs
    rw [run_bind_error hr]
    exact hs
  · rw [hr] at hs
    rw [run_bind_ok hr]
    exact hs.trans (hf a s')

theorem liftFault (x : Except Fault α) : Apart (liftFault x) := by
  cases x with
  | ok a => exact pure a
  | error e => cases e <;> exact fun s => s.retains_self

theorem narrowed (test : Expr) (scope : Nat) : Apart (narrowed test scope) :=
  bind (fun s => s.retains_self) fun _ => liftFault _

section

variable (cfg : Setting) (n : Nat)

theorem of_judge {f : Machine → Run α}
    (h : ∀ old, ∃ P, (sparing old cfg n).Judge () (fun i => f ((sparing old cfg n).machine i)) P) :
    Apart (f (machine cfg n)) := by
  intro s
  obtain ⟨P, hP⟩ := h s.scopes
  simp only [keeping_machine] at hP
  exact (hP s s.retains_self).1

theorem constant {name : String} {e : Expr} (he : cfg.module.constants.get? name = some e) :
    Apart ((machine cfg n).constant name e) :=
  of_judge cfg n (f := fun m => m.constant name e) fun old => ⟨_, ((cfg.retains old).jumps n).constant trivial he⟩

theorem force (v : Value) (pos : Extent) : Apart ((machine cfg n).force v pos) :=
  of_judge cfg n (f := fun m => m.force v pos) fun old =>
    ⟨_, ((cfg.retains old).lawful n).force (l := ()) pos v.meets_true⟩

theorem forceAll (vs : List Value) (pos : Extent) : Apart (vs.mapM fun v => (machine cfg n).force v pos) :=
  of_judge cfg n (f := fun m => vs.mapM fun v => m.force v pos) fun old =>
    ⟨_, ((cfg.retains old).lawful n).forceAll (l := ()) (fun v _ => v.meets_true) pos⟩

theorem memberOf (t : Ty) (name : String) (target : Option String) (pos : Extent) :
    Apart ((machine cfg n).memberOf t name target pos) :=
  of_judge cfg n (f := fun m => m.memberOf t name target pos) fun old =>
    ⟨_, ((cfg.retains old).lawful n).memberOf (l := ()) trivial name target pos⟩

theorem itemOf (t index : Ty) (pos : Extent) : Apart ((machine cfg n).itemOf t index pos) :=
  of_judge cfg n (f := fun m => m.itemOf t index pos) fun old =>
    ⟨_, ((cfg.retains old).lawful n).itemOf trivial index pos⟩

theorem call {f : Value} (hf : Machine.isMethod f = false) (args : List Value) (keywords : Env) (loose : Bool)
    (pos : Extent) (scope : Nat) : Apart ((machine cfg n).call f args keywords loose pos scope) := by
  have hscope (m : Machine) (other : Nat) :
      m.call f args keywords loose pos scope = m.call f args keywords loose pos other := by
    cases f with
    | method receiver name target => cases hf
    | _ => rfl
  refine of_judge cfg n (f := fun m => m.call f args keywords loose pos scope) fun old => ?_
  simp only [hscope _ old.size]
  exact ⟨_, ((cfg.retains old).lawful n).call ((cfg.retains old).jumps n) trivial (fun v _ => v.meets_true)
    (fun b _ => b.2.meets_true) f.meets_true loose pos (Nat.le_refl _)⟩

theorem forcedIn (env : Option Env) (e : Expr) :
    Apart (inScope? env fun inner => (machine cfg n).forced ((machine cfg n).eval e inner) e.pos) :=
  of_judge cfg n (f := fun m => inScope? env fun inner => m.forced (m.eval e inner) e.pos) fun old => by
    have hl := (cfg.retains old).lawful n
    exact ⟨_, hl.forcedIn (w := ()) (hl.evaluates ((cfg.retains old).jumps n) e) trivial fun _ _ b _ => b.2.meets_true⟩

theorem logicalIn (env : Option Env) (op : LogicalOp) (es : List Expr) :
    Apart (inScope? env ((machine cfg n).evalLogical op es)) :=
  of_judge cfg n (f := fun m => inScope? env (m.evalLogical op es)) fun old => by
    have hl := (cfg.retains old).lawful n
    refine ⟨_, hl.inScope? (l := ()) (P := fun _ ts => ∀ t ∈ ts, True) (fun _ _ b _ => b.2.meets_true)
      fun w inner _ hinner => ?_⟩
    exact hl.evalLogical op (fun e _ => hl.evaluates ((cfg.retains old).jumps n) e) trivial hinner

theorem judge_generators (old : Array Env) (gs : List (Generator Expr)) {inner : Nat} (hinner : old.size ≤ inner) :
    (sparing old cfg n).Judge () (fun i => ((sparing old cfg n).machine i).evalGenerators gs inner)
      fun _ o => ∀ inner, o = some inner → old.size ≤ inner := by
  have hl := (cfg.retains old).lawful n
  have hj := (cfg.retains old).jumps n
  refine hl.evalGenerators (w := ()) (l := ()) (fun g _ => ⟨hl.assigns hj g.target, hl.evaluates hj g.source, ?_⟩)
    trivial hinner
  exact fun e _ => hl.evaluates hj e

theorem comprehension (p : Extent) (e : Expr) (gs : List (Generator Expr)) (scope : Nat) :
    Apart ((machine cfg n).eval (.comprehension p e gs) scope) := by
  refine of_judge cfg n (f := fun m => m.eval (.comprehension p e gs) scope) fun old => ?_
  have hl := (cfg.retains old).lawful n
  have he := hl.evaluates ((cfg.retains old).jumps n) e
  refine ⟨fun _ _ => True, hl.located cfg.module _ (hl.bind (P := fun _ inner => old.size ≤ inner)
    (retains_copyScope scope) fun _ inner _ hinner => hl.bind (judge_generators cfg n old gs hinner) fun w o _ ho => ?_)⟩
  cases o with
  | none => exact hl.pure trivial
  | some inner => exact hl.bind (hl.forcedEval (w := w) he e.pos trivial (ho inner rfl)) fun _ _ _ _ => hl.pure trivial

theorem dictComprehension (p : Extent) (key value : Expr) (gs : List (Generator Expr)) (scope : Nat) :
    Apart ((machine cfg n).eval (.dictComprehension p key value gs) scope) := by
  refine of_judge cfg n (f := fun m => m.eval (.dictComprehension p key value gs) scope) fun old => ?_
  have hl := (cfg.retains old).lawful n
  have he := hl.evaluates ((cfg.retains old).jumps n)
  refine ⟨fun _ _ => True, hl.located cfg.module _ (hl.bind (P := fun _ inner => old.size ≤ inner)
    (retains_copyScope scope) fun _ inner _ hinner => hl.bind (judge_generators cfg n old gs hinner) fun w o _ ho => ?_)⟩
  cases o with
  | none => exact hl.pure trivial
  | some inner =>
    have hin := ho inner rfl
    refine hl.bind (hl.forcedEval (w := w) (he key) key.pos trivial hin) fun w₁ _ _ _ => ?_
    exact hl.bind (hl.forcedEval (w := w₁) (he value) value.pos trivial hin) fun _ _ _ _ => hl.pure trivial

end

end Apart

end Casewise.Symbolic
