import Casewise.Proofs.Symbolic.Actions
import Casewise.Proofs.Symbolic.Execution

/-!
A scope that nothing refers to. A session is beside another if it has one scope more, at a place `k`, and whatever
refers to a scope skips that place. Code that is run beside a session does what it does in the session, up to the
numbers of scopes.
-/

namespace Casewise.Symbolic

def shift (k i : Nat) : Nat := if i < k then i else i + 1

theorem shift_injective (k : Nat) : Function.Injective (shift k) := by
  intro i j h
  unfold shift at h
  split at h <;> split at h <;> omega

theorem shift_of_le {k i : Nat} (h : k ≤ i) : shift k i = i + 1 := if_neg (Nat.not_lt.mpr h)

structure Session.Beside (k : Nat) (s s' : Session) : Prop where
  bound : k ≤ s.scopes.size
  size : s'.scopes.size = s.scopes.size + 1
  scopes : ∀ i, s'.scopes[shift k i]? = s.scopes[i]?
  closures : s'.closures = s.closures.map (Renaming.closure.apply (shift k))
  others : s = { s' with scopes := s.scopes, closures := s.closures }

def Shifts {α : Type} (k : Nat) (ρ : Renaming α) (x y : Run α) (P : α → Prop) : Prop :=
  ∀ s s' : Session, s.Beside k s' → (y.run s').1 = (x.run s).1.map (ρ.apply (shift k)) ∧
    (x.run s).2.Beside k (y.run s').2 ∧ ∀ a, (x.run s).1 = .ok a → P a

variable {k : Nat} {α β : Type}

namespace Shifts

variable {ρ : Renaming α} {τ : Renaming β} {x y : Run α} {P : α → Prop}

theorem throw (stop : Stop) : Shifts k ρ (throw stop) (throw stop) P := fun _ _ h => ⟨rfl, h, nofun⟩

theorem bind {f g : α → Run β} {Q : β → Prop} (hx : Shifts k ρ x y P)
    (hf : ∀ a, P a → Shifts k τ (f a) (g (ρ.apply (shift k) a)) Q) : Shifts k τ (x >>= f) (y >>= g) Q := by
  intro s s' h
  obtain ⟨hresult, hbeside, hp⟩ := hx s s' h
  rcases hxs : x.run s with ⟨stop | a, s₁⟩
  · rw [hxs] at hresult hbeside
    have hys : y.run s' = (.error stop, (y.run s').2) := Prod.ext hresult rfl
    rw [run_bind_error hxs, run_bind_error hys]
    exact ⟨rfl, hbeside, nofun⟩
  · rw [hxs] at hresult hbeside hp
    have hys : y.run s' = (.ok (ρ.apply (shift k) a), (y.run s').2) := Prod.ext hresult rfl
    rw [run_bind_ok hxs, run_bind_ok hys]
    exact hf a (hp a rfl) s₁ _ hbeside

theorem mapResult {x' y' : Run α} {f : Except Stop α → Except Stop α} {Q : α → Prop} (hx : Shifts k ρ x y P)
    (hrun : ∀ s, x'.run s = (f (x.run s).1, (x.run s).2)) (hrun' : ∀ s, y'.run s = (f (y.run s).1, (y.run s).2))
    (hf : ∀ r, f (r.map (ρ.apply (shift k))) = (f r).map (ρ.apply (shift k)))
    (hQ : ∀ r a, f r = .ok a → (∀ b, r = .ok b → P b) → Q a) : Shifts k ρ x' y' Q := by
  intro s s' h
  obtain ⟨hresult, hbeside, hp⟩ := hx s s' h
  rw [hrun, hrun']
  refine ⟨?_, hbeside, fun a ha => hQ _ a ha hp⟩
  show f (y.run s').1 = _
  rw [hresult, hf]

theorem of_others (hx : ∀ s scopes closures, x.run { s with scopes, closures } =
    ((x.run s).1, { (x.run s).2 with scopes, closures })) (hP : ∀ a, P a) : Shifts k .fixed x x P := by
  intro s s' h
  have hs : x.run s = ((x.run s').1, { (x.run s').2 with scopes := s.scopes, closures := s.closures }) := by
    conv_lhs => rw [h.others]
    exact hx s' s.scopes s.closures
  have hs' : x.run s' = ((x.run s').1, { (x.run s').2 with scopes := s'.scopes, closures := s'.closures }) :=
    hx s' s'.scopes s'.closures
  refine ⟨?_, ?_, fun a _ => hP a⟩
  · rw [hs]
    cases (x.run s').1 <;> rfl
  · rw [hs, hs']
    exact { h with others := rfl }

end Shifts

theorem shifts_newScope (env : Env) : Shifts k .scope (newScope env) (newScope env) fun _ => True := by
  intro s s' h
  have hfresh : shift k s.scopes.size = s'.scopes.size := by rw [shift_of_le h.bound, h.size]
  refine ⟨congrArg Except.ok hfresh.symm, ⟨?_, ?_, fun i => ?_, h.closures, ?_⟩, fun _ _ => trivial⟩
  · show k ≤ (s.scopes.push env).size
    rw [Array.size_push]
    exact Nat.le_succ_of_le h.bound
  · show (s'.scopes.push env).size = (s.scopes.push env).size + 1
    rw [Array.size_push, Array.size_push, h.size]
  · show (s'.scopes.push env)[shift k i]? = (s.scopes.push env)[i]?
    rw [Array.getElem?_push, Array.getElem?_push, ← hfresh, h.scopes]
    simp only [(shift_injective k).eq_iff]
  · show { s with scopes := s.scopes.push env } = _
    rw [h.others]
    rfl

theorem shifts_envOf (scope : Nat) {P : Env → Prop} (hP : ∀ env, P env) :
    Shifts k .fixed (envOf scope) (envOf (shift k scope)) P := by
  intro s s' h
  exact ⟨congrArg (fun env : Option Env => Except.ok (env.getD [])) (h.scopes scope), h, fun env _ => hP env⟩

theorem shifts_changeEnv (scope : Nat) (f : Env → Env) :
    Shifts k .fixed (changeEnv scope f) (changeEnv (shift k scope) f) fun _ => True := by
  intro s s' h
  refine ⟨rfl, ⟨?_, ?_, fun i => ?_, h.closures, ?_⟩, fun _ _ => trivial⟩
  · show k ≤ (s.scopes.modify scope f).size
    rw [Array.size_modify]
    exact h.bound
  · show (s'.scopes.modify (shift k scope) f).size = (s.scopes.modify scope f).size + 1
    rw [Array.size_modify, Array.size_modify, h.size]
  · show (s'.scopes.modify (shift k scope) f)[shift k i]? = (s.scopes.modify scope f)[i]?
    rw [Array.getElem?_modify, Array.getElem?_modify, h.scopes]
    simp only [(shift_injective k).eq_iff]
  · show { s with scopes := s.scopes.modify scope f } = _
    rw [h.others]
    rfl

theorem shifts_newClosure (c : Closure) {P : Value → Prop} (hP : ∀ v, P v) :
    Shifts k .fixed (newClosure c) (newClosure (Renaming.closure.apply (shift k) c)) P := by
  intro s s' h
  have hsize : s'.closures.size = s.closures.size := by rw [h.closures, Array.size_map]
  refine ⟨congrArg (fun i => Except.ok (Value.closure i c.params.names.length)) hsize,
    ⟨h.bound, h.size, h.scopes, ?_, ?_⟩, fun v _ => hP v⟩
  · show s'.closures.push _ = (s.closures.push c).map (Renaming.closure.apply (shift k))
    rw [Array.map_push, h.closures]
  · show { s with closures := s.closures.push c } = _
    rw [h.others]
    rfl

theorem shifts_changeFrame (f : Frame → Frame) : Shifts k .fixed (changeFrame f) (changeFrame f) fun _ => True :=
  .of_others (fun s _ _ => by rw [run_changeFrame, run_changeFrame]) fun _ => trivial

theorem shifts_reportOnce (d : Diagnostic) (covers : Diagnostic → Bool) :
    Shifts k .fixed (reportOnce d covers) (reportOnce d covers) fun _ => True :=
  .of_others (fun s _ _ => by rw [run_reportOnce, run_reportOnce]) fun _ => trivial

theorem shifts_ask (written path : String) : Shifts k .fixed (ask written path) (ask written path) fun _ => True :=
  .of_others (fun _ _ _ => rfl) fun _ => trivial

def shifting (k : Nat) (cfg : Setting) (n : Nat) : RunLogic Bool where
  setting := cfg
  evaluate _ := (machine cfg n).evaluate
  execute _ := (machine cfg n).execute
  view i _ ρ a := bif i then ρ.apply (shift k) a else a
  Judges ρ _ act P := Shifts k ρ (act false) (act true) (P ())

theorem shifting_machine (k : Nat) (cfg : Setting) (n : Nat) (i : Bool) :
    (shifting k cfg n).machine i = machine cfg n :=
  machine_eta cfg n

theorem shifting_lawful (k : Nat) (cfg : Setting) (n : Nat) : (shifting k cfg n).Lawful where
  view_eq i _ ρ a := by
    cases i with
    | false => exact (ρ.apply_id a).symm
    | true => rfl
  pure_view ha _ _ h := ⟨rfl, h, fun _ hb => Except.ok.inj hb ▸ ha⟩
  bind_view hx hf := Shifts.bind hx fun a ha => hf () a trivial ha
  throw _ := .throw _
  located module pos hx := by
    refine Shifts.mapResult hx (run_located module pos _) (run_located module pos _) (fun r => ?_) fun _ _ =>
      of_mapError_eq_ok
    cases r <;> rfl
  endingPath hx := by
    refine Shifts.mapResult hx (run_endingPath _) (run_endingPath _) (fun r => ?_) fun _ _ _ _ =>
      ⟨fun _ _ => trivial, fun _ _ => trivial, fun _ _ => trivial⟩
    rcases r with stop | flow
    · cases stop <;> rfl
    · rfl
  marked _ := .of_others (fun _ _ _ => rfl) fun _ => trivial
  newScope _ := shifts_newScope _
  envOf _ := shifts_envOf _ fun _ _ _ => Value.meets_true _
  envOf_free _ := shifts_envOf _ fun _ _ _ => Value.meets_true _
  changeEnv _ _ := shifts_changeEnv _ _
  newClosure _ _ := shifts_newClosure _ Value.meets_true
  closure? {_ _ id} _ s s' h := by
    refine ⟨congrArg Except.ok ?_, h, fun _ _ _ _ => trivial⟩
    show s'.closures[id]? = (s.closures[id]?).map (Renaming.closure.apply (shift k))
    rw [h.closures, Array.getElem?_map]
  constant? _ := .of_others (fun _ _ _ => rfl) fun _ _ _ => trivial
  setConstant _ _ := .of_others (fun _ _ _ => rfl) fun _ => trivial
  changeFrame _ _ := shifts_changeFrame _
  recordReturn _ _ := shifts_changeFrame _
  handled? := .of_others (fun _ _ _ => rfl) fun _ => trivial
  nextDepth := .of_others (fun s _ _ => by rw [run_nextDepth, run_nextDepth]) fun _ => trivial
  isRunning _ := .of_others (fun _ _ _ => rfl) fun _ => trivial
  askMocked _ := shifts_ask _ _
  askUnmocked _ _ := (shifts_ask _ _).bind fun _ _ => shifts_reportOnce _ _
  reportMissing _ _ _ := shifts_reportOnce _ _

theorem shifting_tracks (k : Nat) (cfg : Setting) (n : Nat) : (shifting k cfg n).Tracks where
  assumed? _ := .of_others (fun _ _ _ => rfl) fun _ _ _ => trivial
  reenter _ := .of_others (fun _ _ _ => rfl) fun _ => trivial
  hasReentered _ := .of_others (fun _ _ _ => rfl) fun _ => trivial
  assume _ _ := .of_others (fun _ _ _ => rfl) fun _ => trivial
  finish := .of_others (fun _ _ _ => rfl) fun _ => trivial

theorem shifting_jumps_of {cfg : Setting} {n : Nat}
    (hevaluate : ∀ e scope,
      Shifts k .fixed ((machine cfg n).evaluate e scope) ((machine cfg n).evaluate e (shift k scope)) fun _ => True)
    (hexecute : ∀ body scope,
      Shifts k .flow ((machine cfg n).execute body scope) ((machine cfg n).execute body (shift k scope)) fun _ => True) :
    (shifting k cfg n).Jumps () () := by
  have hl := shifting_lawful k cfg n
  refine hl.jumps_of_evaluate (shifting_tracks k cfg n) ?_ fun e scope _ _ =>
    hl.mono (P := fun _ _ => True) (hevaluate e scope) fun _ v _ _ => v.meets_true
  intro w env depth body _ _ _ _
  have hpush : Shifts k .fixed (pushFrame depth) (pushFrame depth) fun _ => True :=
    .of_others (fun _ _ _ => rfl) fun _ => trivial
  have hpop : Shifts k .fixed popFrame popFrame fun frame => ∀ t ∈ frame.returns, True := by
    refine .of_others (fun s _ _ => ?_) fun _ _ _ => trivial
    rcases s with ⟨_, _, _ | ⟨frame, rest⟩, _, _, _, _, _, _⟩ <;> rfl
  refine (shifts_newScope env).bind fun scope _ => hpush.bind fun _ _ => (hexecute body scope).bind fun flow _ => ?_
  obtain ⟨_ | next, breaks, continues⟩ := flow
  · exact hpop
  · exact (shifts_changeFrame _).bind fun _ _ => hpop

theorem shifting_jumps (k : Nat) (cfg : Setting) (n : Nat) : (shifting k cfg n).Jumps () () := by
  induction n with
  | zero => exact shifting_jumps_of (fun _ _ => .throw _) fun _ _ => .throw _
  | succ n ih =>
    have hl := shifting_lawful k cfg n
    refine shifting_jumps_of (fun e scope => ?_) fun body scope => ?_
    · have he := hl.evaluates ih e () scope trivial trivial
      simp only [shifting_machine] at he
      exact hl.mono he fun _ _ _ _ => trivial
    · have hb := hl.execBlock ih body () scope trivial trivial trivial
      simp only [shifting_machine] at hb
      exact hl.mono hb fun _ _ _ _ => trivial

end Casewise.Symbolic
