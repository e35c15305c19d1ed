import Casewise.Proofs.Symbolic.CallStack

/-!
What is assumed for a call in progress. It is read only where the call meets itself, and then that is noted. The note
stays while the call is in progress, since no other call discards it. So a body that ends without the note ends in the
same way under every other assumption.
-/

namespace Casewise.Symbolic

variable {α β : Type} {call c : Call} {s : Session}

namespace Session

def Runs (s : Session) (call : Call) : Prop := ∃ r ∈ s.running, r.1.same call = true

def Met (s : Session) (call : Call) : Prop := ∃ c ∈ s.reentered, c.same call = true

def assuming (s : Session) (call : Call) (t : Ty) : Session :=
  { s with running := s.running.map fun r => if r.1.same call then (r.1, t) else r }

theorem fst_assumed (call : Call) (t : Ty) (r : Call × Ty) : (if r.1.same call then (r.1, t) else r).1 = r.1 := by
  split <;> rfl

theorem any_assuming (p : Call → Bool) (t : Ty) :
    ((s.assuming call t).running.any fun r => p r.1) = s.running.any fun r => p r.1 := by
  simp only [assuming, List.any_map, Function.comp_def, fst_assumed]

theorem filter_assuming (p : Call → Bool) (t : Ty) :
    ((s.assuming call t).running.filter fun r => p r.1) =
      (s.running.filter fun r => p r.1).map fun r => if r.1.same call then (r.1, t) else r := by
  simp only [assuming, List.filter_map, Function.comp_def, fst_assumed]

theorem find?_assuming (hc : c.same call = false) (t : Ty) :
    (s.assuming call t).running.find? (·.1.same c) = s.running.find? (·.1.same c) := by
  simp only [assuming, List.find?_map, Function.comp_def, fst_assumed]
  cases hr : s.running.find? (·.1.same c) with
  | none => rfl
  | some r =>
    have hrc : r.1.same c = true := by simpa using List.find?_some hr
    have hother : ¬ r.1.same call = true := fun h => by
      simp [Call.same_trans (Call.same_symm hrc) h] at hc
    simp [hother]

end Session

/-- From the session the action keeps the note that the call met itself. If there is none at the end, the action does
the same whatever is assumed for the call. -/
structure Unheeded (call : Call) (act : Run α) (s : Session) : Prop where
  met : s.Met call → (act.run s).2.Met call
  run : ¬ (act.run s).2.Met call → ∀ t, act.run (s.assuming call t) = ((act.run s).1, (act.run s).2.assuming call t)

theorem Unheeded.bind {x : Run α} {f : α → Run β} (hx : Unheeded call x s)
    (hf : ∀ a s', x.run s = (.ok a, s') → Unheeded call (f a) s') : Unheeded call (x >>= f) s := by
  obtain ⟨hmet, hrun⟩ := hx
  rcases hr : x.run s with ⟨stop | a, s'⟩
  · simp only [hr] at hmet hrun
    constructor
    · rw [run_bind_error hr]
      exact hmet
    · rw [run_bind_error hr]
      exact fun h t => run_bind_error (hrun h t)
  · simp only [hr] at hmet hrun
    obtain ⟨hmet', hrun'⟩ := hf a s' hr
    constructor
    · rw [run_bind_ok hr]
      exact fun h => hmet' (hmet h)
    · rw [run_bind_ok hr]
      exact fun h t => (run_bind_ok (hrun (fun hs' => h (hmet' hs')) t)).trans (hrun' h t)

theorem unheeded_pure (a : α) : Unheeded call (pure a : Run α) s := ⟨id, fun _ _ => rfl⟩

theorem unheeded_modifyGet {g : Session → α × Session} (hm : s.Met call → (g s).2.Met call)
    (hg : ∀ t, g (s.assuming call t) = ((g s).1, (g s).2.assuming call t)) : Unheeded call (modifyGet g) s := by
  refine ⟨hm, fun _ t => ?_⟩
  show (Except.ok (g (s.assuming call t)).1, (g (s.assuming call t)).2) = _
  rw [hg]
  rfl

theorem unheeded_read {g : Session → α} (hg : ∀ t, g (s.assuming call t) = g s) :
    Unheeded call (do return g (← get)) s :=
  unheeded_modifyGet (g := fun s => (g s, s)) id fun t => by rw [hg t]

def Overlooks (call : Call) (act : Run α) (P : α → Prop) : Prop :=
  ∀ s : Session, s.Runs call → Unheeded call act s ∧ (Continues (act.run s).1 → (act.run s).2.Runs call) ∧
    ∀ a, (act.run s).1 = .ok a → P a

theorem Overlooks.bind {x : Run α} {f : α → Run β} {P : α → Prop} {Q : β → Prop} (hx : Overlooks call x P)
    (hf : ∀ a, P a → Overlooks call (f a) Q) : Overlooks call (x >>= f) Q := by
  intro s hs
  obtain ⟨hheed, hruns, ha⟩ := hx s hs
  rcases hr : x.run s with ⟨stop | a, s'⟩
  · simp only [hr] at hruns
    refine ⟨hheed.bind fun a s' h => absurd (congrArg Prod.fst (hr.symm.trans h)) nofun, ?_⟩
    rw [run_bind_error hr]
    exact ⟨hruns, nofun⟩
  · simp only [hr] at hruns ha
    obtain ⟨hheed', hruns', hb⟩ := hf a (ha a rfl) s' (hruns trivial)
    refine ⟨hheed.bind fun b s₁ h => ?_, ?_⟩
    · obtain ⟨hab, rfl⟩ := Prod.mk.inj (hr.symm.trans h)
      exact Except.ok.inj hab ▸ hheed'
    · rw [run_bind_ok hr]
      exact ⟨hruns', hb⟩

theorem Overlooks.mapResult {x : Run α} {y : Run β} {f : Except Stop α → Except Stop β} {P : α → Prop} {Q : β → Prop}
    (hx : Overlooks call x P) (hy : ∀ s, y.run s = (f (x.run s).1, (x.run s).2))
    (hf : ∀ r, Continues (f r) → Continues r) (hQ : ∀ r b, f r = .ok b → (∀ a, r = .ok a → P a) → Q b) :
    Overlooks call y Q := by
  intro s hs
  obtain ⟨⟨hmet, hrun⟩, hruns, ha⟩ := hx s hs
  refine ⟨⟨?_, fun h t => ?_⟩, ?_⟩
  · rw [hy]
    exact hmet
  · rw [hy] at h ⊢
    rw [hy, hrun h t]
  · rw [hy]
    exact ⟨fun hc => hruns (hf _ hc), fun b hb => hQ _ b hb ha⟩

theorem Overlooks.of_others {x : Run α} {P : α → Prop}
    (hx : ∀ s running, x.run { s with running } = ((x.run s).1, { (x.run s).2 with running }))
    (hm : ∀ s, (x.run s).2.reentered = s.reentered) (hP : ∀ a, P a) : Overlooks call x P := by
  intro s hs
  have hrunning : (x.run s).2.running = s.running := congrArg (·.2.running) (hx s s.running)
  refine ⟨⟨fun hmet => ?_, fun _ t => ?_⟩, fun _ => ?_, fun a _ => hP a⟩
  · unfold Session.Met
    rwa [hm]
  · rw [Session.assuming, hx, Session.assuming, hrunning]
  · unfold Session.Runs
    rwa [hrunning]

theorem overlooks_changeFrame (f : Frame → Frame) : Overlooks call (changeFrame f) fun _ => True :=
  .of_others (fun s _ => by rw [run_changeFrame, run_changeFrame]) (fun s => by rw [run_changeFrame]) fun _ => trivial

theorem overlooks_reportOnce (d : Diagnostic) (covers : Diagnostic → Bool) :
    Overlooks call (reportOnce d covers) fun _ => True :=
  .of_others (fun s _ => by rw [run_reportOnce, run_reportOnce]) (fun s => by rw [run_reportOnce]) fun _ => trivial

theorem overlooks_ask (written path : String) : Overlooks call (ask written path) fun _ => True :=
  .of_others (fun _ _ => rfl) (fun _ => rfl) fun _ => trivial

theorem overlooks_throw (stop : Stop) {P : α → Prop} : Overlooks call (throw stop : Run α) P :=
  fun _ hs => ⟨⟨id, fun _ _ => rfl⟩, fun _ => hs, nofun⟩

def overlooking (call : Call) (cfg : Setting) (n : Nat) : RunLogic Unit where
  setting := cfg
  evaluate _ := (machine cfg n).evaluate
  execute _ := (machine cfg n).execute
  Judges _ _ act P := Overlooks call (act ()) (P ())

theorem overlooking_machine (call : Call) (cfg : Setting) (n : Nat) (i : Unit) :
    (overlooking call cfg n).machine i = machine cfg n :=
  machine_eta cfg n

theorem overlooking_lawful (call : Call) (cfg : Setting) (n : Nat) : (overlooking call cfg n).Lawful where
  pure_view ha s hs := ⟨unheeded_pure _, fun _ => hs, fun _ hb => Except.ok.inj hb ▸ ha⟩
  bind_view hx hf := Overlooks.bind hx fun a ha => hf () a trivial ha
  throw _ := overlooks_throw _
  located module pos hx :=
    Overlooks.mapResult hx (run_located module pos _) (fun _ => continues_of_mapError) fun _ _ => of_mapError_eq_ok
  endingPath hx := Overlooks.mapResult hx (run_endingPath _) (fun _ => continues_of_endedPath) fun _ _ _ _ =>
    ⟨fun _ _ => trivial, fun _ _ => trivial, fun _ _ => trivial⟩
  marked _ := .of_others (fun _ _ => rfl) (fun _ => rfl) fun _ => trivial
  newScope _ := .of_others (fun _ _ => rfl) (fun _ => rfl) fun _ => trivial
  envOf _ := .of_others (fun _ _ => rfl) (fun _ => rfl) fun _ _ _ => Value.meets_true _
  envOf_free _ := .of_others (fun _ _ => rfl) (fun _ => rfl) fun _ _ _ => Value.meets_true _
  changeEnv _ _ := .of_others (fun _ _ => rfl) (fun _ => rfl) fun _ => trivial
  newClosure _ _ := .of_others (fun _ _ => rfl) (fun _ => rfl) Value.meets_true
  closure? _ := .of_others (fun _ _ => rfl) (fun _ => rfl) fun _ _ _ => trivial
  constant? _ := .of_others (fun _ _ => rfl) (fun _ => rfl) fun _ _ _ => trivial
  setConstant _ _ := .of_others (fun _ _ => rfl) (fun _ => rfl) fun _ => trivial
  changeFrame _ _ := overlooks_changeFrame _
  recordReturn _ _ := overlooks_changeFrame _
  handled? := .of_others (fun _ _ => rfl) (fun _ => rfl) fun _ => trivial
  nextDepth := .of_others (fun s _ => by rw [run_nextDepth, run_nextDepth]) (fun s => by rw [run_nextDepth])
    fun _ => trivial
  isRunning name _ hs :=
    ⟨unheeded_read (Session.any_assuming fun c => c.function == name), fun _ => hs, fun _ _ => trivial⟩
  askMocked _ := overlooks_ask _ _
  askUnmocked _ _ := (overlooks_ask _ _).bind fun _ _ => overlooks_reportOnce _ _
  reportMissing _ _ _ := overlooks_reportOnce _ _

section

variable {t : Ty}

theorem Session.Runs.assume (hs : s.Runs call) (hc : c.same call = false) : ((assume c t).run s).2.Runs call := by
  obtain ⟨r, hr, hrc⟩ := hs
  refine ⟨r, List.mem_cons_of_mem _ (List.mem_filter.mpr ⟨hr, ?_⟩), hrc⟩
  rw [Bool.not_eq_true', Bool.eq_false_iff]
  exact fun h => by simp [Call.same_trans (Call.same_symm h) hrc] at hc

theorem unheeded_assume (hc : c.same call = false) : Unheeded call (assume c t) s := by
  refine unheeded_modifyGet (g := fun s => ((), _)) ?_ fun u => ?_
  · rintro ⟨d, hd, hdc⟩
    refine ⟨d, List.mem_filter.mpr ⟨hd, ?_⟩, hdc⟩
    rw [Bool.not_eq_true', Bool.eq_false_iff]
    exact fun h => by simp [Call.same_trans (Call.same_symm h) hdc] at hc
  · simp only [Session.filter_assuming (fun d => !d.same c) u]
    simp [Session.assuming, hc]

theorem unheeded_assumed? (hc : c.same call = false) : Unheeded call (assumed? c) s :=
  unheeded_read fun t => by rw [Session.find?_assuming hc]

theorem unheeded_reenter (c : Call) : Unheeded call (reenter c) s := by
  refine unheeded_modifyGet (g := fun s => ((), _)) ?_ fun _ => rfl
  rintro ⟨d, hd, hdc⟩
  by_cases hsame : d.same c = true
  · exact ⟨c, by simp, Call.same_trans (Call.same_symm hsame) hdc⟩
  · exact ⟨d, by simp [hd, hsame], hdc⟩

theorem unheeded_finish : Unheeded call finish s :=
  unheeded_modifyGet (g := fun s => ((), _)) id fun t => by simp [Session.assuming, List.map_tail]

end

section

variable {cfg : Setting} {n : Nat}
  (hexecute : ∀ body scope, Overlooks call ((machine cfg n).execute body scope) fun _ => True)

include hexecute

theorem overlooks_runBody (body : List Stmt) (env : Env) (depth : Int) :
    Overlooks call ((machine cfg n).runBody body env depth) fun _ => True := by
  have hscope : Overlooks call (newScope env) fun _ => True :=
    .of_others (fun _ _ => rfl) (fun _ => rfl) fun _ => trivial
  have hpush : Overlooks call (pushFrame depth) fun _ => True :=
    .of_others (fun _ _ => rfl) (fun _ => rfl) fun _ => trivial
  have hinner (scope : Nat) : Overlooks call ((machine cfg n).inFrame body scope) fun _ => True := by
    refine (hexecute body scope).bind fun flow _ => ?_
    split
    · exact overlooks_changeFrame _
    · exact fun s hs => ⟨unheeded_pure _, fun _ => hs, fun _ _ => trivial⟩
  have hpop : Overlooks call popFrame fun _ => True := by
    intro s hs
    rcases s with ⟨_, _, _ | ⟨x, rest⟩, _, _, _, _, _, _⟩
    · exact ⟨⟨id, fun _ _ => rfl⟩, fun _ => hs, fun _ _ => trivial⟩
    · exact ⟨⟨id, fun _ _ => rfl⟩, fun _ => hs, fun _ _ => trivial⟩
  rw [runBody_eq]
  exact hscope.bind fun scope _ => hpush.bind fun _ _ => (hinner scope).bind fun _ _ => hpop

theorem unheeded_settle (body : List Stmt) (hc : c.same call = false) (depth : Int) (rounds : Nat) (assumed : Ty)
    (last : Machine.Outcome) (hs : s.Runs call) :
    Unheeded call ((machine cfg n).settle body c depth rounds assumed last) s := by
  induction rounds generalizing assumed last s with
  | zero => exact unheeded_pure _
  | succ rounds ih =>
    unfold Machine.settle
    refine (unheeded_assume hc).bind fun _ s₁ h₁ => ?_
    have hs₁ : s₁.Runs call := by
      have hruns := hs.assume (t := assumed) hc
      rwa [h₁] at hruns
    obtain ⟨hheed, hruns, _⟩ := overlooks_runBody hexecute body c.env depth s₁ hs₁
    refine hheed.bind fun frame s₂ h₂ => ?_
    have hs₂ : s₂.Runs call := by
      rw [h₂] at hruns
      exact hruns trivial
    have hread : Unheeded call (hasReentered c) s₂ := unheeded_read fun _ => rfl
    refine hread.bind fun recursive s₃ h₃ => ?_
    obtain rfl : s₂ = s₃ := congrArg Prod.snd h₃
    dsimp only
    generalize (if recursive then Ty.union [assumed, Ty.union frame.returns] else Ty.union frame.returns) = returned
    split
    · exact unheeded_pure _
    · exact ih _ _ hs₂

theorem unheeded_callFunction (f : FunctionDef Stmt) (env : Env) (depth : Int) (hs : s.Runs call) :
    Unheeded call ((machine cfg n).callFunction f env depth) s := by
  have hread : (assumed? ⟨f.name, env⟩).run s = (.ok ((s.running.find? (·.1.same ⟨f.name, env⟩)).map (·.2)), s) := rfl
  unfold Machine.callFunction
  cases hc : Call.same ⟨f.name, env⟩ call with
  | true =>
    -- the call meets itself, and the note says so
    obtain ⟨r, hr, hrc⟩ := hs
    obtain ⟨t, ht⟩ : ∃ t, (s.running.find? (·.1.same ⟨f.name, env⟩)).map (·.2) = some t := by
      rw [← Option.isSome_iff_exists, Option.isSome_map, List.find?_isSome]
      exact ⟨r, hr, Call.same_trans hrc (Call.same_symm hc)⟩
    rw [ht] at hread
    have hmet (o : Machine.Outcome) : ((reenter ⟨f.name, env⟩ >>= fun _ => pure o : Run _).run s).2.Met call :=
      ⟨_, List.mem_cons_self, hc⟩
    constructor
    · rw [run_bind_ok hread]
      exact fun _ => hmet _
    · rw [run_bind_ok hread]
      exact fun h => absurd (hmet _) h
  | false =>
    refine (unheeded_assumed? hc).bind fun found s₁ h₁ => ?_
    obtain rfl : s = s₁ := congrArg Prod.snd h₁
    cases found with
    | some t => exact (unheeded_reenter _).bind fun _ _ _ => unheeded_pure _
    | none =>
      dsimp only
      split
      · exact unheeded_pure _
      · split
        · exact (overlooks_throw _ s hs (P := fun _ => True)).1
        · refine (unheeded_settle hexecute f.body hc depth _ _ _ hs).bind fun o _ _ => ?_
          exact unheeded_finish.bind fun _ _ _ => unheeded_pure _

theorem overlooks_callFunction (f : FunctionDef Stmt) (env : Env) (depth : Int) :
    Overlooks call ((machine cfg n).callFunction f env depth) fun _ => True := by
  intro s hs
  refine ⟨unheeded_callFunction hexecute f env depth hs, fun hc => ?_, fun _ _ => trivial⟩
  -- a call that returns restores the calls in progress
  obtain ⟨_, hne, hrestored⟩ := tied_callFunction (tied_execute cfg (pure ()) n) f env depth s
  rcases hr : ((machine cfg n).callFunction f env depth).run s with ⟨stop | o, s'⟩
  · rw [hr] at hc
    exact absurd (congrArg Prod.fst hr) (hc ▸ hne)
  · have hrunning := (hrestored o s' hr).2
    unfold Session.Runs
    exact hrunning.symm ▸ hs

theorem overlooking_jumps_of (hevaluate : ∀ e scope, Overlooks call ((machine cfg n).evaluate e scope) fun _ => True) :
    (overlooking call cfg n).Jumps () () := by
  have hl := overlooking_lawful call cfg n
  apply hl.jumps_of_calls
  case evaluate =>
    intro w e scope _ _
    exact hl.mono (P := fun _ _ => True) (hevaluate e scope) fun _ v _ _ => v.meets_true
  case body =>
    intro w env depth body _ _ _ _
    refine hl.mono (P := fun _ _ => True) ?_ fun _ _ _ _ _ _ => trivial
    simp only [overlooking_machine]
    exact overlooks_runBody hexecute body env depth
  case call =>
    intro w env depth f _ _ _
    refine hl.mono (P := fun _ _ => True) ?_ fun _ _ _ _ => trivial
    simp only [overlooking_machine]
    exact overlooks_callFunction hexecute f env depth

end

section

variable {cfg : Setting} {n : Nat} (hj : (overlooking call cfg n).Jumps () ())

include hj

theorem overlooks_eval (e : Expr) (scope : Nat) : Overlooks call ((machine cfg n).eval e scope) fun _ => True := by
  have hl := overlooking_lawful call cfg n
  have he := hl.evaluates hj e () scope trivial trivial
  simp only [overlooking_machine] at he
  exact hl.mono he fun _ _ _ _ => trivial

theorem overlooks_execBlock (body : List Stmt) (scope : Nat) :
    Overlooks call ((machine cfg n).execBlock body scope) fun _ => True := by
  have hl := overlooking_lawful call cfg n
  have hb := hl.execBlock hj body () scope trivial trivial trivial
  simp only [overlooking_machine] at hb
  exact hl.mono hb fun _ _ _ _ => trivial

end

theorem overlooking_jumps (call : Call) (cfg : Setting) (n : Nat) : (overlooking call cfg n).Jumps () () := by
  induction n with
  | zero => exact overlooking_jumps_of (fun _ _ => overlooks_throw _) fun _ _ => overlooks_throw _
  | succ n ih => exact overlooking_jumps_of (overlooks_execBlock ih) (overlooks_eval ih)

theorem overlooks_execute (call : Call) (cfg : Setting) (n : Nat) (body : List Stmt) (scope : Nat) :
    Overlooks call ((machine cfg n).execute body scope) fun _ => True := by
  cases n with
  | zero => exact overlooks_throw _
  | succ n => exact overlooks_execBlock (overlooking_jumps call cfg n) body scope

theorem assuming_assume (hself : call.same call = true) (t u : Ty) :
    ((assume call t).run s).2.assuming call u = ((assume call u).run s).2 := by
  have hothers : ((s.running.filter fun r => !r.1.same call).map fun r => if r.1.same call then (r.1, u) else r) =
      s.running.filter fun r => !r.1.same call := by
    refine (List.map_congr_left fun r hr => if_neg ?_).trans (List.map_id' _)
    simpa using (List.mem_filter.mp hr).2
  show ({ s with running := _, reentered := _ } : Session) = { s with running := _, reentered := _ }
  congr 1
  show List.map _ ((call, t) :: _) = _
  rw [List.map_cons, if_pos hself, hothers]

theorem run_runBody_assuming {cfg : Setting} {n : Nat} {body : List Stmt} {env : Env} {depth : Int} {t : Ty}
    {frame : Frame} {s' : Session} (hself : call.same call = true)
    (h : (do assume call t; (machine cfg n).runBody body env depth).run s = (.ok frame, s')) (hmet : ¬ s'.Met call)
    (u : Ty) :
    (do assume call u; (machine cfg n).runBody body env depth).run s = (.ok frame, s'.assuming call u) := by
  have hassume (v : Ty) : (assume call v).run s = (.ok (), ((assume call v).run s).2) := rfl
  rw [run_bind_ok (hassume t)] at h
  rw [run_bind_ok (hassume u), ← assuming_assume hself t u]
  obtain ⟨hheed, _⟩ := overlooks_runBody (overlooks_execute call cfg n) body env depth ((assume call t).run s).2
    ⟨_, List.mem_cons_self, hself⟩
  rw [hheed.run (by rwa [h]) u, h]

end Casewise.Symbolic
