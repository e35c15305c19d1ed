import Casewise.Proofs.Symbolic.Actions
import Casewise.Proofs.Symbolic.Execution

/-!
The calls in progress. Calls are nested at the depths from zero up to the limit, and a call that returns leaves its
caller with the calls that were in progress before. To say so of every body that is run, a watched machine looks at the
calls before and after each body, and does the same as a machine that does not look.
-/

namespace Casewise

theorem Value.same_symm {v w : Value} (h : v.same w = true) : w.same v = true := by
  cases v <;> cases w <;> simp_all [same, Ty.same_symm]

theorem Value.same_trans {u v w : Value} (huv : u.same v = true) (hvw : v.same w = true) : u.same w = true := by
  cases u <;> cases v <;> simp only [same, Bool.false_eq_true, Bool.and_eq_true, beq_iff_eq] at huv <;>
    cases w <;> simp only [same, Bool.false_eq_true, Bool.and_eq_true, beq_iff_eq] at hvw ⊢
  case type => exact Ty.same_trans huv hvw
  case method =>
    obtain ⟨⟨hr, rfl⟩, rfl⟩ := huv
    exact ⟨⟨Ty.same_trans hr hvw.1.1, hvw.1.2⟩, hvw.2⟩
  case external => exact ⟨huv.1.trans hvw.1, huv.2.trans hvw.2⟩
  all_goals exact huv.trans hvw

theorem Env.same_symm {a b : Env} (h : a.same b = true) : b.same a = true := by
  induction a generalizing b with
  | nil =>
    cases b with
    | nil => rfl
    | cons y b => cases h
  | cons x a ih =>
    cases b with
    | nil => cases h
    | cons y b =>
      simp only [same, Bool.and_eq_true, beq_iff_eq] at h ⊢
      exact ⟨⟨h.1.1.symm, Value.same_symm h.1.2⟩, ih h.2⟩

theorem Env.same_trans {a b c : Env} (hab : a.same b = true) (hbc : b.same c = true) : a.same c = true := by
  induction a generalizing b c with
  | nil =>
    cases b with
    | nil => exact hbc
    | cons y b => cases hab
  | cons x a ih =>
    cases b with
    | nil => cases hab
    | cons y b =>
      cases c with
      | nil => cases hbc
      | cons z c =>
        simp only [same, Bool.and_eq_true, beq_iff_eq] at hab hbc ⊢
        exact ⟨⟨hab.1.1.trans hbc.1.1, Value.same_trans hab.1.2 hbc.1.2⟩, ih hab.2 hbc.2⟩

namespace Symbolic

variable {α β : Type} {cfg : Setting} {alarm : Run Unit} {n : Nat} {s : Session}

namespace Call

variable {a b c : Call}

theorem same_symm (h : a.same b = true) : b.same a = true := by
  simp only [same, Bool.and_eq_true, beq_iff_eq] at h ⊢
  exact ⟨h.1.symm, Env.same_symm h.2⟩

theorem same_trans (hab : a.same b = true) (hbc : b.same c = true) : a.same c = true := by
  simp only [same, Bool.and_eq_true, beq_iff_eq] at hab hbc ⊢
  exact ⟨hab.1.trans hbc.1, Env.same_trans hab.2 hbc.2⟩

theorem same_self_right (h : a.same b = true) : b.same b = true := same_trans (same_symm h) h

end Call

def Stepped (depths : List Int) : Prop := depths.reverse = (List.range depths.length).map Int.ofNat

def isNested (limit : Int) (frames : List Frame) : Bool :=
  !frames.isEmpty && (frames.map (·.depth)).reverse == (List.range frames.length).map Int.ofNat &&
    decide ((frames.length : Int) ≤ limit + 1)

theorem stepped_cons {depth : Int} {depths : List Int} :
    Stepped (depth :: depths) ↔ depth = depths.length ∧ Stepped depths := by
  unfold Stepped
  rw [List.reverse_cons, List.length_cons, List.range_succ, List.map_append, List.map_singleton]
  constructor
  · intro h
    obtain ⟨hs, hd⟩ := List.append_inj h (by simp)
    exact ⟨(List.cons.inj hd).1, hs⟩
  · rintro ⟨rfl, hs⟩
    rw [hs]
    rfl

structure CallStack where
  depths : List Int
  outer : List Frame
  running : List (Call × Ty)

def Session.stack (s : Session) : CallStack := ⟨s.frames.map (·.depth), s.frames.tail, s.running⟩

def CallStack.next (w : CallStack) : Int := (w.depths.head?.map (· + 1)).getD 0

theorem Session.stack_congr {s s' : Session} (hf : s'.frames = s.frames) (hr : s'.running = s.running) :
    s'.stack = s.stack := by
  unfold stack
  rw [hf, hr]

theorem Session.next_stack (s : Session) : s.stack.next = (s.frames.head?.map (·.depth + 1)).getD 0 := by
  simp [CallStack.next, stack, Function.comp_def]

theorem next_of_stepped {w : CallStack} (h : Stepped w.depths) : w.next = w.depths.length := by
  unfold CallStack.next
  cases hd : w.depths with
  | nil => rfl
  | cons depth depths =>
    rw [hd] at h
    simp [(stepped_cons.mp h).1]

theorem isNested_cons {depth limit : Int} {frames : List Frame} (h : Stepped (frames.map (·.depth)))
    (hd : depth = frames.length) (hle : depth ≤ limit) : isNested limit ({ depth } :: frames) = true := by
  have hs : Stepped (depth :: frames.map (·.depth)) := stepped_cons.mpr ⟨by simpa using hd, h⟩
  unfold Stepped at hs
  simp only [List.length_cons, List.length_map] at hs
  simp only [isNested, List.isEmpty_cons, Bool.not_false, Bool.true_and, List.map_cons, List.length_cons, hs,
    beq_self_eq_true, decide_eq_true_eq]
  omega

theorem stepped_of_isNested {limit : Int} (h : isNested limit s.frames = true) : Stepped s.stack.depths := by
  simp only [isNested, Bool.and_eq_true, beq_iff_eq] at h
  unfold Stepped Session.stack
  rw [h.1.2, List.length_map]

theorem isNested_stack {limit : Int} {s s' : Session} (h : s'.stack = s.stack) :
    isNested limit s'.frames = isNested limit s.frames := by
  have hd : s'.frames.map (·.depth) = s.frames.map (·.depth) := congrArg CallStack.depths h
  have hl : s'.frames.length = s.frames.length := by simpa using congrArg List.length hd
  have he : s'.frames.isEmpty = s.frames.isEmpty := by
    rw [Bool.eq_iff_iff, List.isEmpty_iff, List.isEmpty_iff, ← List.length_eq_zero_iff, ← List.length_eq_zero_iff, hl]
  rw [isNested, isNested, hd, hl, he]

def watch (limit : Int) (alarm : Run Unit) : Run Unit := do
  if isNested limit (← get).frames then pure () else alarm

/-- A machine that looks at the calls in progress before and after it runs a body. -/
def watched (cfg : Setting) (alarm : Run Unit) : Nat → Machine
  | 0 => machine cfg 0
  | n + 1 => ⟨cfg, (watched cfg alarm n).eval, fun body scope => do
      watch cfg.limits.depth alarm
      let flow ← (watched cfg alarm n).execBlock body scope
      watch cfg.limits.depth alarm
      return flow⟩

theorem run_watch {limit : Int} (h : isNested limit s.frames = true) : (watch limit alarm).run s = (.ok (), s) := by
  unfold watch
  have hget : (get : Run Session).run s = (.ok s, s) := rfl
  rw [run_bind_ok hget, if_pos h]
  rfl

def observed (cfg : Setting) (alarm : Run Unit) (n : Nat) : Bool → Machine
  | true => watched cfg alarm n
  | false => machine cfg n

@[simp] theorem observed_eta (i : Bool) :
    Machine.mk cfg (observed cfg alarm n i).evaluate (observed cfg alarm n i).execute = observed cfg alarm n i := by
  cases i <;> cases n <;> rfl

theorem observed_setting (i : Bool) : (observed cfg alarm n i).setting = cfg := by
  cases i <;> cases n <;> rfl

/-- Where calls are nested the action does the same watched and unwatched. Unless the run ends there, it leaves the
calls in progress as they were. -/
def Balanced (w : CallStack) (act : Bool → Run α) (P : α → Prop) : Prop :=
  ∀ s : Session, s.stack = w →
    (Stepped w.depths → (act true).run s = (act false).run s) ∧
    (Continues ((act false).run s).1 → ((act false).run s).2.stack = w) ∧ ∀ a, ((act false).run s).1 = .ok a → P a

variable {w : CallStack}

theorem Balanced.bind {x : Bool → Run α} {f : Bool → α → Run β} {P : α → Prop} {Q : β → Prop} (hx : Balanced w x P)
    (hf : ∀ a, P a → Balanced w (fun i => f i a) Q) : Balanced w (fun i => x i >>= f i) Q := by
  intro s hs
  obtain ⟨hrun, hstack, ha⟩ := hx s hs
  rcases hr : (x false).run s with ⟨stop | a, s'⟩
  · simp only [hr] at hrun hstack
    rw [run_bind_error hr]
    exact ⟨fun h => run_bind_error (hrun h), hstack, nofun⟩
  · simp only [hr] at hrun hstack ha
    obtain ⟨hrun', hstack', hb⟩ := hf a (ha a rfl) s' (hstack trivial)
    rw [run_bind_ok hr]
    exact ⟨fun h => (run_bind_ok (hrun h)).trans (hrun' h), hstack', hb⟩

theorem Balanced.mapResult {x : Bool → Run α} {y : Bool → Run β} {f : Except Stop α → Except Stop β} {P : α → Prop}
    {Q : β → Prop} (hx : Balanced w x P) (hy : ∀ i s, (y i).run s = (f ((x i).run s).1, ((x i).run s).2))
    (hf : ∀ r, Continues (f r) → Continues r) (hQ : ∀ r b, f r = .ok b → (∀ a, r = .ok a → P a) → Q b) :
    Balanced w y Q := by
  intro s hs
  obtain ⟨hrun, hstack, ha⟩ := hx s hs
  simp only [hy]
  refine ⟨fun h => by rw [hrun h], fun hc => hstack (hf _ hc), fun b hb => hQ _ b hb ha⟩

theorem balanced_modifyGet {g : Session → α × Session} {P : α → Prop} (hg : ∀ s, (g s).2.stack = s.stack)
    (ha : ∀ s, P (g s).1) : Balanced w (fun _ => modifyGet g) P := by
  intro s hs
  exact ⟨fun _ => rfl, fun _ => (hg s).trans hs, fun a h => Except.ok.inj h ▸ ha s⟩

theorem balanced_modify {g : Session → Session} (hg : ∀ s, (g s).stack = s.stack) :
    Balanced w (fun _ => modify g) fun _ => True := balanced_modifyGet hg fun _ => trivial

theorem balanced_read {g : Session → α} {P : α → Prop} (ha : ∀ s, P (g s)) :
    Balanced w (fun _ => do return g (← get)) P :=
  balanced_modifyGet (g := fun s => (g s, s)) (fun _ => rfl) ha

theorem balanced_changeFrame {f : Frame → Frame} (hf : ∀ x, (f x).depth = x.depth) :
    Balanced w (fun _ => changeFrame f) fun _ => True := by
  intro s hs
  refine ⟨fun _ => rfl, fun _ => ?_, fun _ _ => trivial⟩
  rw [run_changeFrame, ← hs]
  unfold Session.stack
  cases s.frames with
  | nil => rfl
  | cons x rest => simp only [List.modifyHead_cons, List.map_cons, List.tail_cons, hf]

theorem balanced_recordReturn (t : Ty) : Balanced w (fun _ => recordReturn t) fun _ => True :=
  balanced_changeFrame fun _ => rfl

theorem balanced_reportOnce (d : Diagnostic) (covers : Diagnostic → Bool) :
    Balanced w (fun _ => reportOnce d covers) fun _ => True := by
  apply balanced_modify
  intro s
  split <;> rfl

theorem balanced_ask (written path : String) : Balanced w (fun _ => ask written path) fun _ => True :=
  balanced_modify fun _ => rfl

def balancing (cfg : Setting) (alarm : Run Unit) (n : Nat) : RunLogic Bool where
  setting := cfg
  evaluate i := (observed cfg alarm n i).evaluate
  execute i := (observed cfg alarm n i).execute
  World := CallStack
  later w w' := w' = w
  Depth w depth := depth = w.next
  Judges _ w act P := Balanced w act (P w)

theorem balancing_machine (i : Bool) : (balancing cfg alarm n).machine i = observed cfg alarm n i := observed_eta i

theorem balancing_lawful (cfg : Setting) (alarm : Run Unit) (n : Nat) : (balancing cfg alarm n).Lawful where
  refl _ := rfl
  trans hv hw := hw.trans hv
  depth_later hw hd := hw ▸ hd
  pure_view ha s hs := ⟨fun _ => rfl, fun _ => hs, fun _ hb => Except.ok.inj hb ▸ ha⟩
  bind_view hx hf := Balanced.bind hx fun a ha => hf _ a rfl ha
  throw _ s hs := ⟨fun _ => rfl, fun _ => hs, nofun⟩
  located module pos hx := Balanced.mapResult hx (fun _ => run_located module pos _)
    (fun _ => continues_of_mapError) fun _ _ => of_mapError_eq_ok
  endingPath hx := Balanced.mapResult hx (fun _ => run_endingPath _) (fun _ => continues_of_endedPath) fun _ _ _ _ =>
    ⟨fun _ _ => trivial, fun _ _ => trivial, fun _ _ => trivial⟩
  marked _ := balanced_modifyGet (fun _ => rfl) fun _ => trivial
  newScope _ := balanced_modifyGet (fun _ => rfl) fun _ => trivial
  envOf _ := balanced_read fun _ _ _ => Value.meets_true _
  envOf_free _ := balanced_read fun _ _ _ => Value.meets_true _
  changeEnv _ _ := balanced_modify fun _ => rfl
  newClosure _ _ := balanced_modifyGet (fun _ => rfl) fun _ => trivial
  closure? _ := balanced_read fun _ _ _ => trivial
  constant? _ := balanced_read fun _ _ _ => trivial
  setConstant _ _ := balanced_modify fun _ => rfl
  changeFrame hf _ := balanced_changeFrame hf
  recordReturn _ _ := balanced_recordReturn _
  handled? := balanced_read fun _ => trivial
  nextDepth s hs := by
    refine ⟨fun _ => rfl, fun _ => ?_, fun d hd => ?_⟩
    · rw [run_nextDepth]
      exact hs
    · rw [run_nextDepth] at hd
      rw [← hs]
      exact (Except.ok.inj hd).symm.trans s.next_stack.symm
  isRunning _ := balanced_read fun _ => trivial
  askMocked _ := balanced_ask _ _
  askUnmocked _ _ := (balanced_ask _ _).bind fun _ _ => balanced_reportOnce _ _
  reportMissing _ _ _ := balanced_reportOnce _ _

theorem run_popFrame {x : Frame} {rest : List Frame} (h : s.frames = x :: rest) :
    popFrame.run s = (.ok x, { s with frames := rest }) := by
  rcases s with ⟨_, _, frames, _, _, _, _, _, _⟩
  subst h
  rfl

def Tied (c : Prop) (act : Bool → Run α) (s : Session) (Q : α → Session → Prop) : Prop :=
  (c → (act true).run s = (act false).run s) ∧ ((act false).run s).1 ≠ .error .unreachable ∧
    ∀ a s', (act false).run s = (.ok a, s') → Q a s'

theorem Tied.bind {c : Prop} {x : Bool → Run α} {f : Bool → α → Run β} {P : α → Session → Prop}
    {Q : β → Session → Prop} (hx : Tied c x s P) (hf : ∀ a s', P a s' → Tied c (fun i => f i a) s' Q) :
    Tied c (fun i => x i >>= f i) s Q := by
  obtain ⟨hrun, hne, hp⟩ := hx
  rcases hr : (x false).run s with ⟨stop | a, s'⟩
  · rw [hr] at hrun hne
    refine ⟨fun h => ?_, ?_, fun b s' hb => ?_⟩
    · rw [run_bind_error (hrun h), run_bind_error hr]
    · rw [run_bind_error hr]
      exact fun he => hne (Except.error.inj he ▸ rfl)
    · rw [run_bind_error hr] at hb
      cases hb
  · rw [hr] at hrun
    obtain ⟨hrun', hne', hq⟩ := hf a s' (hp a s' hr)
    refine ⟨fun h => ?_, ?_, fun b s'' hb => ?_⟩
    · rw [run_bind_ok (hrun h), run_bind_ok hr]
      exact hrun' h
    · rw [run_bind_ok hr]
      exact hne'
    · rw [run_bind_ok hr] at hb
      exact hq b s'' hb

theorem Tied.imp {c d : Prop} {act : Bool → Run α} {P Q : α → Session → Prop} (h : Tied c act s P) (hc : d → c)
    (hq : ∀ a s', P a s' → Q a s') : Tied d act s Q :=
  ⟨fun hd => h.1 (hc hd), h.2.1, fun a s' ha => hq a s' (h.2.2 a s' ha)⟩

theorem tied_of_ok {c : Prop} {x : Run α} {a : α} {s' : Session} {Q : α → Session → Prop}
    (hx : x.run s = (.ok a, s')) (hq : Q a s') : Tied c (fun _ => x) s Q := by
  refine ⟨fun _ => rfl, by simp [hx], fun b s'' hb => ?_⟩
  obtain ⟨hab, rfl⟩ := Prod.mk.inj (hx.symm.trans hb)
  exact Except.ok.inj hab ▸ hq

theorem tied_ite {c d : Prop} [Decidable d] {x y : Bool → Run α} {Q : α → Session → Prop}
    (hx : d → Tied c x s Q) (hy : ¬ d → Tied c y s Q) : Tied c (fun i => if d then x i else y i) s Q := by
  by_cases hd : d
  · simpa only [hd, if_true] using hx hd
  · simpa only [hd, if_false] using hy hd

def Restored (s : Session) (_ : α) (s' : Session) : Prop := s'.frames = s.frames ∧ s'.running = s.running

theorem balanced_of_tied {act : Bool → Run α} (h : ∀ s, s.stack = w → Tied (Stepped w.depths) act s (Restored s)) :
    Balanced w act fun _ => True := by
  intro s hs
  obtain ⟨hrun, hne, hq⟩ := h s hs
  refine ⟨hrun, fun hc => ?_, fun _ _ => trivial⟩
  rcases hr : (act false).run s with ⟨stop | a, s'⟩
  · rw [hr] at hc hne
    exact absurd (congrArg Except.error hc) hne
  · obtain ⟨hf, hrunning⟩ := hq a s' hr
    exact (Session.stack_congr hf hrunning).trans hs

structure Callable (cfg : Setting) (s : Session) (depth : Int) : Prop where
  stepped : Stepped s.stack.depths
  next : depth = s.stack.next
  allowed : depth ≤ cfg.limits.depth

theorem Callable.congr {s' : Session} {depth : Int} (hr : s'.frames = s.frames) (h : Callable cfg s depth) :
    Callable cfg s' depth := by
  obtain ⟨hs, hn, ha⟩ := h
  rw [Session.next_stack] at hn
  refine ⟨?_, ?_, ha⟩
  · unfold Session.stack at hs ⊢
    rwa [hr]
  · rwa [Session.next_stack, hr]

theorem Callable.isNested {depth : Int} (h : Callable cfg s depth) :
    isNested cfg.limits.depth ({ depth } :: s.frames) = true := by
  have hlen : s.stack.next = s.frames.length := by simpa [Session.stack] using next_of_stepped h.stepped
  exact isNested_cons h.stepped (h.next.trans hlen) h.allowed

section

variable (hexecute : ∀ body scope s, Tied (isNested cfg.limits.depth s.frames = true)
  (fun i => (observed cfg alarm n i).execute body scope) s fun _ s' => s'.stack = s.stack)

include hexecute

theorem tied_inFrame (body : List Stmt) (scope : Nat) (s : Session) :
    Tied (isNested cfg.limits.depth s.frames = true) (fun i => (observed cfg alarm n i).inFrame body scope) s
      fun _ s' => s'.stack = s.stack := by
  unfold Machine.inFrame
  refine (hexecute body scope s).bind fun flow s₁ hs₁ => ?_
  have hreturn : ((recordReturn .null).run s₁).2.stack = s₁.stack :=
    (balanced_recordReturn .null s₁ rfl).2.1 trivial
  apply tied_ite
  · intro _
    exact tied_of_ok rfl (hreturn.trans hs₁)
  · intro _
    exact tied_of_ok rfl hs₁

theorem tied_runBody (body : List Stmt) (env : Env) (depth : Int) (s : Session) :
    Tied (Callable cfg s depth) (fun i => (observed cfg alarm n i).runBody body env depth) s (Restored s) := by
  simp only [runBody_eq]
  refine Tied.bind (P := Restored s) (tied_of_ok rfl ⟨rfl, rfl⟩) ?_
  rintro scope s₁ ⟨hf₁, hr₁⟩
  refine Tied.bind (P := fun _ s₂ => s₂.frames = { depth } :: s.frames ∧ s₂.running = s.running)
    (tied_of_ok rfl ⟨by simp [hf₁], hr₁⟩) ?_
  rintro _ s₂ ⟨hf₂, hr₂⟩
  have hnested (hc : Callable cfg s depth) : isNested cfg.limits.depth s₂.frames = true := hf₂ ▸ hc.isNested
  refine ((tied_inFrame hexecute body scope s₂).imp hnested fun _ _ => id).bind fun _ s₃ hs₃ => ?_
  have hrunning : s₃.running = s₂.running := congrArg CallStack.running hs₃
  have houter : s₃.frames.tail = s.frames := by
    have := congrArg CallStack.outer hs₃
    simpa [Session.stack, hf₂] using this
  cases hf₃ : s₃.frames with
  | nil =>
    have hdepths := congrArg CallStack.depths hs₃
    simp [Session.stack, hf₂, hf₃] at hdepths
  | cons x rest =>
    refine tied_of_ok (run_popFrame hf₃) ⟨?_, hrunning.trans hr₂⟩
    simpa [hf₃] using houter

theorem tied_settle (body : List Stmt) (call : Call) (depth : Int) (rounds : Nat) (assumed : Ty)
    (last : Machine.Outcome) (s : Session) :
    Tied (Callable cfg s depth) (fun i => (observed cfg alarm n i).settle body call depth rounds assumed last) s
      fun _ s' => s'.frames = s.frames ∧ (rounds = 0 → s'.running = s.running) ∧
        (0 < rounds → ∃ t, s'.running = (call, t) :: s.running.filter fun r => !r.1.same call) := by
  induction rounds generalizing assumed last s with
  | zero => exact tied_of_ok rfl ⟨rfl, fun _ => rfl, by simp⟩
  | succ rounds ih =>
    unfold Machine.settle
    generalize hrest : (s.running.filter fun r => !r.1.same call) = rest
    refine Tied.bind (P := fun _ s₁ => s₁.frames = s.frames ∧ s₁.running = (call, assumed) :: rest)
      (tied_of_ok rfl ⟨rfl, by simp [hrest]⟩) ?_
    rintro _ s₁ ⟨hf₁, hr₁⟩
    have hbody := (tied_runBody hexecute body call.env depth s₁).imp (Callable.congr hf₁) fun _ _ => id
    refine hbody.bind ?_
    rintro frame s₂ ⟨hf₂, hr₂⟩
    refine Tied.bind (P := fun recursive s₃ => s₃ = s₂ ∧ recursive = s₂.reentered.any (·.same call))
      (tied_of_ok rfl ⟨rfl, rfl⟩) ?_
    rintro recursive s₃ ⟨rfl, hrecursive⟩
    have hf := hf₂.trans hf₁
    have hr := hr₂.trans hr₁
    dsimp only
    apply tied_ite
    · intro _
      exact tied_of_ok rfl ⟨hf, by simp, fun _ => ⟨assumed, hr⟩⟩
    · intro hagain
      -- only a call that equals itself meets itself again
      have hmet : recursive = true := by
        cases recursive with
        | false => exact absurd rfl hagain
        | true => rfl
      have hself : call.same call = true := by
        obtain ⟨c, _, hc⟩ := List.any_eq_true.mp (hrecursive.symm.trans hmet)
        exact Call.same_self_right hc
      have hfilter : (s₃.running.filter fun r => !r.1.same call) = rest := by
        rw [hr, ← hrest]
        simp [hself]
      refine (ih _ _ s₃).imp (Callable.congr hf) ?_
      rintro o s' ⟨hf', hzero, hsome⟩
      refine ⟨hf'.trans hf, by simp, fun _ => ?_⟩
      rcases Nat.eq_zero_or_pos rounds with hn | hn
      · exact ⟨assumed, (hzero hn).trans hr⟩
      · rw [hfilter] at hsome
        exact hsome hn

theorem tied_callFunction (f : FunctionDef Stmt) (env : Env) (depth : Int) (s : Session) :
    Tied (Stepped s.stack.depths ∧ depth = s.stack.next) (fun i => (observed cfg alarm n i).callFunction f env depth) s
      (Restored s) := by
  unfold Machine.callFunction
  simp only [observed_setting]
  refine Tied.bind (P := fun found s₁ => s₁ = s ∧ found = (s.running.find? (·.1.same ⟨f.name, env⟩)).map (·.2))
    (tied_of_ok rfl ⟨rfl, rfl⟩) ?_
  rintro found s₁ ⟨rfl, hfound⟩
  cases found with
  | some t => exact Tied.bind (P := Restored s₁) (tied_of_ok rfl ⟨rfl, rfl⟩) fun _ s₂ hs₂ => tied_of_ok rfl hs₂
  | none =>
    have hnew : (s₁.running.filter fun r => !r.1.same ⟨f.name, env⟩) = s₁.running := by
      rw [List.filter_eq_self]
      intro r hr
      have hnone := List.find?_eq_none.mp (Option.map_eq_none_iff.mp hfound.symm) r hr
      simpa using hnone
    dsimp only
    apply tied_ite
    · intro _
      exact tied_of_ok rfl ⟨rfl, rfl⟩
    · intro hle
      apply tied_ite
      · intro _
        exact ⟨fun _ => rfl, nofun, fun _ _ h => by cases h⟩
      · intro hrounds
        have hcallable (hc : Stepped s₁.stack.depths ∧ depth = s₁.stack.next) : Callable cfg s₁ depth :=
          ⟨hc.1, hc.2, Int.not_lt.mp hle⟩
        have hsettle := tied_settle hexecute f.body ⟨f.name, env⟩ depth cfg.limits.rounds.toNat .never
          ⟨.unknown, [], true⟩ s₁
        refine (hsettle.imp hcallable fun _ _ => id).bind ?_
        rintro o s₂ ⟨hf₂, _, hsome⟩
        obtain ⟨t, ht⟩ := hsome (by omega)
        rw [hnew] at ht
        refine Tied.bind (P := Restored s₁) (tied_of_ok rfl ⟨hf₂, by simp [ht]⟩) fun _ s₃ hs₃ => tied_of_ok rfl hs₃

theorem balancing_jumps_of (hevaluate : ∀ e scope w, Balanced w (fun i => (observed cfg alarm n i).evaluate e scope)
    fun _ => True) (start : CallStack) : (balancing cfg alarm n).Jumps () start := by
  have hl := balancing_lawful cfg alarm n
  apply hl.jumps_of_calls
  case evaluate =>
    intro w e scope _ _
    exact hl.mono (P := fun _ _ => True) (hevaluate e scope w) fun _ v _ _ => v.meets_true
  case body =>
    intro w env depth body _ hd hle _
    refine hl.mono (P := fun _ _ => True) ?_ fun _ _ _ _ _ _ => trivial
    simp only [balancing_machine]
    refine balanced_of_tied fun s hs => (tied_runBody hexecute body env depth s).imp (fun hc => ?_) fun _ _ => id
    subst hs
    exact ⟨hc, hd, hle⟩
  case call =>
    intro w env depth f _ hd _
    refine hl.mono (P := fun _ _ => True) ?_ fun _ _ _ _ => trivial
    simp only [balancing_machine]
    refine balanced_of_tied fun s hs => (tied_callFunction hexecute f env depth s).imp (fun hc => ?_) fun _ _ => id
    subst hs
    exact ⟨hc, hd⟩

end

section

variable (hj : ∀ start, (balancing cfg alarm n).Jumps () start)

include hj

theorem balanced_eval (e : Expr) (scope : Nat) (w : CallStack) :
    Balanced w (fun i => (observed cfg alarm n i).eval e scope) fun _ => True := by
  have hl := balancing_lawful cfg alarm n
  have he := hl.evaluates (hj w) e w scope rfl trivial
  simp only [balancing_machine] at he
  exact hl.mono he fun _ _ _ _ => trivial

theorem balanced_execBlock (body : List Stmt) (scope : Nat) (w : CallStack) :
    Balanced w (fun i => (observed cfg alarm n i).execBlock body scope) fun _ => True := by
  have hl := balancing_lawful cfg alarm n
  have hb := hl.execBlock (hj w) body w scope rfl trivial trivial
  simp only [balancing_machine] at hb
  exact hl.mono hb fun _ _ _ _ => trivial

theorem balanced_evaluate_succ (e : Expr) (scope : Nat) (w : CallStack) :
    Balanced w (fun i => (observed cfg alarm (n + 1) i).evaluate e scope) fun _ => True := by
  have heval (i : Bool) : (observed cfg alarm (n + 1) i).evaluate = (observed cfg alarm n i).eval := by
    cases i <;> rfl
  simp only [heval]
  exact balanced_eval hj e scope w

theorem tied_execute_succ (body : List Stmt) (scope : Nat) (s : Session) :
    Tied (isNested cfg.limits.depth s.frames = true) (fun i => (observed cfg alarm (n + 1) i).execute body scope) s
      fun _ s' => s'.stack = s.stack := by
  obtain ⟨hrun, hstack, _⟩ := balanced_execBlock hj body scope s.stack s rfl
  have hkept {flow : Flow} {s' : Session} (h : ((machine cfg n).execBlock body scope).run s = (.ok flow, s')) :
      s'.stack = s.stack := by
    have hs' := hstack (congrArg Prod.fst h ▸ trivial)
    rwa [show ((observed cfg alarm n false).execBlock body scope).run s = (.ok flow, s') from h] at hs'
  refine ⟨fun hnested => ?_, execute_ne_unreachable cfg (n + 1) body scope s, fun flow s' h => hkept h⟩
  have hplain : ((watched cfg alarm n).execBlock body scope).run s = ((machine cfg n).execBlock body scope).run s :=
    hrun (stepped_of_isNested hnested)
  show ((do
    watch cfg.limits.depth alarm
    let flow ← (watched cfg alarm n).execBlock body scope
    watch cfg.limits.depth alarm
    return flow : Run Flow)).run s = ((machine cfg n).execBlock body scope).run s
  rw [run_bind_ok (run_watch hnested)]
  rcases hr : ((machine cfg n).execBlock body scope).run s with ⟨stop | flow, s'⟩
  · exact run_bind_error (hplain.trans hr)
  · rw [run_bind_ok (hplain.trans hr), run_bind_ok (run_watch ((isNested_stack (hkept hr)).trans hnested))]
    rfl

end

theorem tied_exhausted {c : Prop} {Q : α → Session → Prop} (s : Session) :
    Tied c (fun _ => (throw .exhausted : Run α)) s Q :=
  ⟨fun _ => rfl, nofun, fun _ _ h => by cases h⟩

theorem balancing_jumps (cfg : Setting) (alarm : Run Unit) (n : Nat) (start : CallStack) :
    (balancing cfg alarm n).Jumps () start := by
  induction n generalizing start with
  | zero =>
    apply balancing_jumps_of
    · intro body scope s
      exact tied_exhausted s
    · intro e scope w s _
      exact ⟨fun _ => rfl, nofun, nofun⟩
  | succ n ih => exact balancing_jumps_of (tied_execute_succ ih) (balanced_evaluate_succ ih) start

theorem tied_execute (cfg : Setting) (alarm : Run Unit) (n : Nat) (body : List Stmt) (scope : Nat) (s : Session) :
    Tied (isNested cfg.limits.depth s.frames = true) (fun i => (observed cfg alarm n i).execute body scope) s
      fun _ s' => s'.stack = s.stack := by
  cases n with
  | zero => exact tied_exhausted s
  | succ n => exact tied_execute_succ (balancing_jumps cfg alarm n) body scope s

theorem run_watched (cfg : Setting) (alarm : Run Unit) (n : Nat) (name : String) (args : List Ty) (supply : Mark) :
    (runFunction (watched cfg alarm n) name args).run { supply } =
      (runFunction (machine cfg n) name args).run { supply } := by
  have hl := balancing_lawful cfg alarm n
  have hrun := hl.runFunction (balancing_jumps cfg alarm n ⟨[], [], []⟩) name rfl rfl fun (t : Ty) (_ : t ∈ args) => trivial
  simp only [balancing_machine] at hrun
  exact (hrun { supply } rfl).1 rfl

/-- Every body is run while the calls in progress are nested at the depths from zero up to the limit, so that no alarm
is raised. A call that returns leaves the calls in progress as they were, and so do expressions and statements, apart
from what happens in the innermost call. -/
theorem calls_stay_balanced (cfg : Setting) (n : Nat) :
    (∀ alarm name args supply, (runFunction (watched cfg alarm n) name args).run { supply } =
      (runFunction (machine cfg n) name args).run { supply }) ∧
    (∀ f env depth s outcome s', ((machine cfg n).callFunction f env depth).run s = (.ok outcome, s') →
      s'.frames = s.frames ∧ s'.running = s.running) ∧
    (∀ e scope s, Continues (((machine cfg n).eval e scope).run s).1 →
      (((machine cfg n).eval e scope).run s).2.stack = s.stack) ∧
    (∀ body scope s, Continues (((machine cfg n).execBlock body scope).run s).1 →
      (((machine cfg n).execBlock body scope).run s).2.stack = s.stack) := by
  refine ⟨fun alarm => run_watched cfg alarm n, ?_, ?_, ?_⟩
  · intro f env depth s outcome s' h
    exact (tied_callFunction (tied_execute cfg (pure ()) n) f env depth s).2.2 outcome s' h
  · intro e scope s
    exact (balanced_eval (balancing_jumps cfg (pure ()) n) e scope s.stack s rfl).2.1
  · intro body scope s
    exact (balanced_execBlock (balancing_jumps cfg (pure ()) n) body scope s.stack s rfl).2.1

def outcry : Setting where
  module := { file := "outcry", functions := [("fail", fail), ("start", start)] }
  mocks := []
where
  fail : FunctionDef Stmt := ⟨default, "fail", {}, [.raising default (some (.name default "ValueError")) none], [], []⟩
  start : FunctionDef Stmt :=
    ⟨default, "start", {}, [.expr default (.call default (.name default "fail") [] [])], [], []⟩

def outcrySession : Session where
  frames := [{ depth := 0, returns := [.null] }]
  running := [(⟨"main", []⟩, .never)]

theorem outcry_stays_balanced :
    ∃ outcome s', ((machine outcry 3).callFunction outcry.start [] 1).run outcrySession = (.ok outcome, s') ∧
      outcome.returned = false ∧ outcome.raises = ["ValueError"] ∧
      s'.frames = outcrySession.frames ∧ s'.running = outcrySession.running := by
  obtain ⟨outcome, s', hrun, hreturned, hraises⟩ : ∃ outcome s',
      ((machine outcry 3).callFunction outcry.start [] 1).run outcrySession = (.ok outcome, s') ∧
        outcome.returned = false ∧ outcome.raises = ["ValueError"] := ⟨_, _, rfl, rfl, rfl⟩
  have hbalanced := (calls_stay_balanced outcry 3).2.1 outcry.start [] 1 outcrySession outcome s' hrun
  exact ⟨outcome, s', hrun, hreturned, hraises, hbalanced⟩

end Symbolic

end Casewise
