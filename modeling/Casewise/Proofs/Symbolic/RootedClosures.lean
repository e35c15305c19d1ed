import Casewise.Proofs.Symbolic.Actions
import Casewise.Proofs.Symbolic.Execution

namespace Casewise.Symbolic

variable {α β : Type} {cfg : Setting} {n k scope : Nat} {s : Session}

def Session.Rooted (s : Session) : Prop := ∀ c ∈ s.closures, c.scope < s.scopes.size

theorem Session.Rooted.of_size_le {s' : Session} (h : s.Rooted) (hc : s'.closures = s.closures)
    (hs : s.scopes.size ≤ s'.scopes.size) : s'.Rooted :=
  fun c hm => Nat.lt_of_lt_of_le (h c (hc ▸ hm)) hs

/-- Where `k` scopes exist and closures are rooted, they are so after the action, and its result is of a kind that may
refer to the scopes that exist by then. -/
def Roots (k : Nat) (act : Run α) (P : Nat → α → Prop) : Prop :=
  ∀ s : Session, s.Rooted → k ≤ s.scopes.size →
    (act.run s).2.Rooted ∧ ∃ k', k ≤ k' ∧ k' ≤ (act.run s).2.scopes.size ∧ ∀ a, (act.run s).1 = .ok a → P k' a

theorem Roots.bind {x : Run α} {f : α → Run β} {P : Nat → α → Prop} {Q : Nat → β → Prop} (hx : Roots k x P)
    (hf : ∀ k' a, k ≤ k' → P k' a → Roots k' (f a) Q) : Roots k (x >>= f) Q := by
  intro s hs hk
  obtain ⟨hs', k', hk', hsize, ha⟩ := hx s hs hk
  rcases hr : x.run s with ⟨stop | a, s'⟩
  · rw [hr] at hs' hsize
    rw [run_bind_error hr]
    exact ⟨hs', k', hk', hsize, nofun⟩
  · rw [hr] at hs' hsize ha
    obtain ⟨hs'', k'', hk'', hsize', hb⟩ := hf k' a hk' (ha a rfl) s' hs' hsize
    rw [run_bind_ok hr]
    exact ⟨hs'', k'', hk'.trans hk'', hsize', hb⟩

theorem Roots.mapResult {x : Run α} {y : Run β} {f : Except Stop α → Except Stop β} {P : Nat → α → Prop}
    {Q : Nat → β → Prop} (hx : Roots k x P) (hy : ∀ s, y.run s = (f (x.run s).1, (x.run s).2))
    (hQ : ∀ k' r b, f r = .ok b → (∀ a, r = .ok a → P k' a) → Q k' b) : Roots k y Q := by
  intro s hs hk
  obtain ⟨hs', k', hk', hsize, ha⟩ := hx s hs hk
  rw [hy]
  exact ⟨hs', k', hk', hsize, fun b hb => hQ k' _ b hb ha⟩

theorem Roots.of_others {x : Run α} {P : Nat → α → Prop} (hc : ∀ s, (x.run s).2.closures = s.closures)
    (hs : ∀ s, (x.run s).2.scopes.size = s.scopes.size) (hP : ∀ a, P k a) : Roots k x P := fun s hr hk =>
  ⟨hr.of_size_le (hc s) (hs s).ge, k, le_rfl, (hs s).symm ▸ hk, fun a _ => hP a⟩

theorem roots_changeFrame (f : Frame → Frame) : Roots k (changeFrame f) fun _ _ => True :=
  .of_others (fun _ => by rw [run_changeFrame]) (fun _ => by rw [run_changeFrame]) fun _ => trivial

theorem roots_reportOnce (d : Diagnostic) (covers : Diagnostic → Bool) :
    Roots k (reportOnce d covers) fun _ _ => True :=
  .of_others (fun _ => by rw [run_reportOnce]) (fun _ => by rw [run_reportOnce]) fun _ => trivial

theorem roots_ask (written path : String) : Roots k (ask written path) fun _ _ => True :=
  .of_others (fun _ => rfl) (fun _ => rfl) fun _ => trivial

theorem roots_newScope (env : Env) : Roots k (newScope env) fun k' scope => scope < k' := by
  intro s hs hk
  have hsize : ((newScope env).run s).2.scopes.size = s.scopes.size + 1 := Array.size_push env
  refine ⟨hs.of_size_le rfl (by omega), s.scopes.size + 1, by omega, hsize.ge, fun scope h => ?_⟩
  exact Except.ok.inj h ▸ Nat.lt_succ_self _

theorem roots_newClosure {c : Closure} (hc : c.scope < k) : Roots k (newClosure c) fun _ _ => True := by
  refine fun s hs hk => ⟨fun d hd => ?_, k, le_rfl, hk, fun _ _ => trivial⟩
  rcases Array.mem_push.mp hd with hd | rfl
  · exact hs d hd
  · exact Nat.lt_of_lt_of_le hc hk

theorem roots_popFrame {P : Nat → Frame → Prop} (hP : ∀ frame, P k frame) : Roots k popFrame P := by
  refine .of_others ?_ ?_ hP
  all_goals rintro ⟨_, _, _ | ⟨x, rest⟩, _, _, _, _, _, _⟩ <;> rfl

def rooting (cfg : Setting) (n : Nat) : RunLogic Unit where
  setting := cfg
  evaluate _ := (machine cfg n).evaluate
  execute _ := (machine cfg n).execute
  World := Nat
  later := (· ≤ ·)
  At k _ scope := scope < k
  Judges _ k act P := Roots k (act ()) P

theorem rooting_machine (cfg : Setting) (n : Nat) (i : Unit) : (rooting cfg n).machine i = machine cfg n :=
  machine_eta cfg n

theorem rooting_lawful (cfg : Setting) (n : Nat) : (rooting cfg n).Lawful where
  refl := Nat.le_refl
  trans := Nat.le_trans
  at_later hk hs := Nat.lt_of_lt_of_le hs hk
  pure_view {_ _ k _ _} ha s hs hk := ⟨hs, k, le_rfl, hk, fun _ hb => Except.ok.inj hb ▸ ha⟩
  bind_view := Roots.bind
  throw {_ _ k _ _} _ s hs hk := ⟨hs, k, le_rfl, hk, nofun⟩
  located module pos hx := Roots.mapResult hx (run_located module pos _) fun _ _ _ => of_mapError_eq_ok
  endingPath hx := Roots.mapResult hx (run_endingPath _) fun k' r flow h hflow => by
    cases r with
    | ok a => exact hflow flow h
    | error stop =>
      cases stop with
      | unreachable => exact Except.ok.inj h ▸ RunLogic.FlowsFree.left
      | _ => cases h
  marked _ := .of_others (fun _ => rfl) (fun _ => rfl) fun _ => trivial
  newScope _ := roots_newScope _
  envOf _ := .of_others (fun _ => rfl) (fun _ => rfl) fun _ _ _ => Value.meets_true _
  envOf_free _ := .of_others (fun _ => rfl) (fun _ => rfl) fun _ _ _ => Value.meets_true _
  changeEnv _ _ := .of_others (fun _ => rfl) (fun _ => Array.size_modify) fun _ => trivial
  newClosure _ hc := (roots_newClosure hc).mapResult (f := id) (fun _ => rfl) fun _ _ v _ _ => v.meets_true
  closure? _ := .of_others (fun _ => rfl) (fun _ => rfl) fun _ _ _ => trivial
  constant? _ := .of_others (fun _ => rfl) (fun _ => rfl) fun _ _ _ => trivial
  setConstant _ _ := .of_others (fun _ => rfl) (fun _ => rfl) fun _ => trivial
  changeFrame _ _ := roots_changeFrame _
  recordReturn _ _ := roots_changeFrame _
  handled? := .of_others (fun _ => rfl) (fun _ => rfl) fun _ => trivial
  nextDepth := .of_others (fun _ => by rw [run_nextDepth]) (fun _ => by rw [run_nextDepth]) fun _ => trivial
  isRunning _ := .of_others (fun _ => rfl) (fun _ => rfl) fun _ => trivial
  askMocked _ := roots_ask _ _
  askUnmocked _ _ := (roots_ask _ _).bind fun _ _ _ _ => roots_reportOnce _ _
  reportMissing _ _ _ := roots_reportOnce _ _

theorem rooting_tracks (cfg : Setting) (n : Nat) : (rooting cfg n).Tracks where
  assumed? _ := .of_others (fun _ => rfl) (fun _ => rfl) fun _ _ _ => trivial
  reenter _ := .of_others (fun _ => rfl) (fun _ => rfl) fun _ => trivial
  hasReentered _ := .of_others (fun _ => rfl) (fun _ => rfl) fun _ => trivial
  assume _ _ := .of_others (fun _ => rfl) (fun _ => rfl) fun _ => trivial
  finish := .of_others (fun _ => rfl) (fun _ => rfl) fun _ => trivial

theorem rooting_jumps_of
    (hevaluate : ∀ {k} e scope, scope < k → Roots k ((machine cfg n).evaluate e scope) fun _ _ => True)
    (hexecute : ∀ {k} body scope, scope < k → Roots k ((machine cfg n).execute body scope) fun _ _ => True)
    (start : Nat) : (rooting cfg n).Jumps () start := by
  have hl := rooting_lawful cfg n
  refine hl.jumps_of_evaluate (rooting_tracks cfg n) ?_ fun e scope _ hs =>
    hl.mono (P := fun _ _ => True) (hevaluate e scope hs) fun _ v _ _ => v.meets_true
  intro k env depth body _ _ _ he
  unfold Machine.runBody
  have hpop {k : Nat} : Roots k popFrame fun _ frame => ∀ t ∈ frame.returns, (rooting cfg n).Holds t :=
    roots_popFrame fun _ _ _ => trivial
  have hpush {k : Nat} : Roots k (pushFrame depth) fun _ _ => True :=
    .of_others (fun _ => rfl) (fun _ => rfl) fun _ => trivial
  refine hl.bind (roots_newScope env) fun k₁ scope _ hscope => hl.bind hpush fun k₂ _ hk₂ _ => ?_
  refine hl.bind (hexecute body scope (Nat.lt_of_lt_of_le hscope hk₂)) fun k₃ flow _ _ => ?_
  exact RunLogic.judge_ite (c := flow.next.isSome)
    (fun _ => hl.bind (hl.recordReturn trivial trivial) fun _ _ _ _ => hpop) fun _ => hpop

theorem roots_eval_of (hj : ∀ start, (rooting cfg n).Jumps () start) (e : Expr) (hs : scope < k) :
    Roots k ((machine cfg n).eval e scope) fun _ _ => True := by
  have he := (rooting_lawful cfg n).evaluates (hj k) e k scope le_rfl hs
  simp only [rooting_machine] at he
  exact (rooting_lawful cfg n).mono he fun _ _ _ _ => trivial

theorem roots_execBlock_of (hj : ∀ start, (rooting cfg n).Jumps () start) (body : List Stmt) (hs : scope < k) :
    Roots k ((machine cfg n).execBlock body scope) fun _ _ => True := by
  have hb := (rooting_lawful cfg n).execBlock (hj k) body k scope le_rfl trivial hs
  simp only [rooting_machine] at hb
  exact (rooting_lawful cfg n).mono hb fun _ _ _ _ => trivial

theorem rooting_jumps (cfg : Setting) (n start : Nat) : (rooting cfg n).Jumps () start := by
  induction n generalizing start with
  | zero =>
    have hthrow {α : Type} {k : Nat} : Roots k (throw .exhausted : Run α) fun _ _ => True := fun _ hs hk =>
      ⟨hs, k, le_rfl, hk, nofun⟩
    exact rooting_jumps_of (fun _ _ _ => hthrow) (fun _ _ _ => hthrow) start
  | succ n ih => exact rooting_jumps_of (fun e _ => roots_eval_of ih e) (fun body _ => roots_execBlock_of ih body) start

namespace Session.Rooted

variable (h : s.Rooted)

include h

theorem eval (hs : scope < s.scopes.size) (cfg : Setting) (n : Nat) (e : Expr) :
    (((machine cfg n).eval e scope).run s).2.Rooted :=
  (roots_eval_of (rooting_jumps cfg n) e hs s h le_rfl).1

theorem execBlock (hs : scope < s.scopes.size) (cfg : Setting) (n : Nat) (body : List Stmt) :
    (((machine cfg n).execBlock body scope).run s).2.Rooted :=
  (roots_execBlock_of (rooting_jumps cfg n) body hs s h le_rfl).1

theorem runFunction (cfg : Setting) (n : Nat) (name : String) (args : List Ty) :
    ((runFunction (machine cfg n) name args).run s).2.Rooted := by
  have hrun := (rooting_lawful cfg n).runFunction (rooting_jumps cfg n 0) name (Nat.le_refl 0) trivial
    fun (t : Ty) (_ : t ∈ args) => trivial
  simp only [rooting_machine] at hrun
  exact (hrun s h (Nat.zero_le _)).1

end Session.Rooted

theorem rooted_runFunction (cfg : Setting) (n : Nat) (name : String) (args : List Ty) (supply : Mark) :
    ((runFunction (machine cfg n) name args).run { supply }).2.Rooted :=
  Session.Rooted.runFunction (s := { supply }) (by simp [Session.Rooted]) cfg n name args

end Casewise.Symbolic
