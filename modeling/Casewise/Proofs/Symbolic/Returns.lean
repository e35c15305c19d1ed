import Casewise.Proofs.Symbolic.Actions
import Casewise.Proofs.Symbolic.Execution

namespace Casewise.Symbolic

variable {α β : Type} {s : Session} {below w : Nat} {returns : List Ty}

def setReturns (returns : List Ty) (below : Nat) : List Frame → List Frame
  | [] => []
  | f :: rest => if rest.length = below then { f with returns } :: rest else f :: setReturns returns below rest

theorem setReturns_cons {f : Frame} {rest : List Frame} (h : below < rest.length) :
    setReturns returns below (f :: rest) = f :: setReturns returns below rest :=
  if_neg (by omega)

theorem setReturns_head (f : Frame) (rest : List Frame) :
    setReturns returns rest.length (f :: rest) = { f with returns } :: rest := if_pos rfl

theorem setReturns_modifyHead {f : Frame → Frame} (hf : ∀ x returns, f { x with returns } = { f x with returns })
    (fs : List Frame) : (setReturns returns below fs).modifyHead f = setReturns returns below (fs.modifyHead f) := by
  cases fs with
  | nil => rfl
  | cons x rest =>
    simp only [setReturns, List.modifyHead_cons]
    split
    · rw [List.modifyHead_cons, hf]
    · rfl

theorem head?_setReturns {g : Frame → Option α} (hg : ∀ x returns, g { x with returns } = g x) (fs : List Frame) :
    (setReturns returns below fs).head?.bind g = fs.head?.bind g := by
  cases fs with
  | nil => rfl
  | cons x rest =>
    unfold setReturns
    split
    · exact hg x returns
    · rfl

def Session.withReturns (s : Session) (below : Nat) (returns : List Ty) : Session :=
  { s with frames := setReturns returns below s.frames }

/-- The action neither reads nor changes what the frame has returned that has so many others below it. It starts with
so many frames above that frame and leaves as many as there were. -/
def Ignores (below w : Nat) (act : Run α) (P : α → Prop) : Prop :=
  ∀ s : Session, below + w < s.frames.length →
    (∀ returns, act.run (s.withReturns below returns) = ((act.run s).1, (act.run s).2.withReturns below returns)) ∧
    (Continues (act.run s).1 → (act.run s).2.frames.length = s.frames.length) ∧ ∀ a, (act.run s).1 = .ok a → P a

theorem Ignores.bind {x : Run α} {f : α → Run β} {P : α → Prop} {Q : β → Prop} (hx : Ignores below w x P)
    (hf : ∀ a, P a → Ignores below w (f a) Q) : Ignores below w (x >>= f) Q := by
  intro s hs
  obtain ⟨hrun, hlen, ha⟩ := hx s hs
  rcases hr : x.run s with ⟨stop | a, s'⟩
  · simp only [hr] at hrun hlen
    rw [run_bind_error hr]
    exact ⟨fun returns => run_bind_error (hrun returns), hlen, nofun⟩
  · simp only [hr] at hrun hlen ha
    have hlen := hlen trivial
    obtain ⟨hrun', hlen', hb⟩ := hf a (ha a rfl) s' (hlen.symm ▸ hs)
    rw [run_bind_ok hr]
    exact ⟨fun returns => (run_bind_ok (hrun returns)).trans (hrun' returns), fun hc => (hlen' hc).trans hlen, hb⟩

theorem Ignores.mapResult {x : Run α} {y : Run β} {f : Except Stop α → Except Stop β} {P : α → Prop} {Q : β → Prop}
    (hx : Ignores below w x P) (hy : ∀ s, y.run s = (f (x.run s).1, (x.run s).2))
    (hf : ∀ r, Continues (f r) → Continues r) (hQ : ∀ r b, f r = .ok b → (∀ a, r = .ok a → P a) → Q b) :
    Ignores below w y Q := by
  intro s hs
  obtain ⟨hrun, hlen, ha⟩ := hx s hs
  rw [hy s]
  refine ⟨fun returns => ?_, fun hc => hlen (hf _ hc), fun b hb => hQ _ b hb ha⟩
  rw [hy, hrun]

theorem Ignores.of_others {x : Run α} {P : α → Prop}
    (hx : ∀ s frames, x.run { s with frames } = ((x.run s).1, { (x.run s).2 with frames })) (hP : ∀ a, P a) :
    Ignores below w x P := by
  intro s _
  have hframes : (x.run s).2.frames = s.frames := congrArg (·.2.frames) (hx s s.frames)
  refine ⟨fun returns => ?_, fun _ => congrArg List.length hframes, fun a _ => hP a⟩
  rw [Session.withReturns, hx, Session.withReturns, hframes]

theorem ignores_changeFrame {f : Frame → Frame}
    (hf : ∀ fs returns, below + w < fs.length →
      (setReturns returns below fs).modifyHead f = setReturns returns below (fs.modifyHead f)) :
    Ignores below w (changeFrame f) fun _ => True := by
  intro s hs
  rw [run_changeFrame]
  refine ⟨fun returns => ?_, fun _ => by simp, fun _ _ => trivial⟩
  rw [run_changeFrame]
  simp only [Session.withReturns, hf s.frames returns hs]

theorem ignores_recordReturn (hw : 0 < w) (t : Ty) : Ignores below w (recordReturn t) fun _ => True := by
  refine ignores_changeFrame fun fs returns hs => ?_
  cases fs with
  | nil => rfl
  | cons f rest =>
    have hrest : below < rest.length := by
      rw [List.length_cons] at hs
      omega
    rw [setReturns_cons hrest, List.modifyHead_cons, List.modifyHead_cons, setReturns_cons hrest]

theorem ignores_reportOnce (d : Diagnostic) (covers : Diagnostic → Bool) :
    Ignores below w (reportOnce d covers) fun _ => True :=
  .of_others (fun s _ => by rw [run_reportOnce, run_reportOnce]) fun _ => trivial

theorem ignores_ask (written path : String) : Ignores below w (ask written path) fun _ => True :=
  .of_others (fun _ _ => rfl) fun _ => trivial

theorem ignores_inFrame {act : Run Unit} {P : Frame → Prop} (depth : Int) (h : Ignores below (w + 1) act fun _ => True)
    (hne : ∀ s, (act.run s).1 ≠ .error .unreachable) (hP : ∀ frame, P frame) :
    Ignores below w (do pushFrame depth; act; popFrame) P := by
  intro s hs
  have hpush (s : Session) : (pushFrame depth).run s = (.ok (), { s with frames := { depth } :: s.frames }) := rfl
  obtain ⟨hrun, hlen, _⟩ := h { s with frames := { depth } :: s.frames } (Nat.add_lt_add_right hs 1)
  have hinner (returns : List Ty) : ({ s with frames := { depth } :: s.frames } : Session).withReturns below returns =
      { s.withReturns below returns with frames := { depth } :: (s.withReturns below returns).frames } := by
    simp only [Session.withReturns, setReturns_cons (Nat.lt_of_le_of_lt (Nat.le_add_right below w) hs)]
  simp only [run_bind_ok (hpush _)]
  rcases hr : act.run { s with frames := { depth } :: s.frames } with ⟨stop | u, s'⟩
  · simp only [hr, hinner] at hrun hlen
    rw [run_bind_error hr]
    refine ⟨fun returns => run_bind_error (hrun returns), ?_, nofun⟩
    rintro rfl
    exact absurd (congrArg Prod.fst hr) (hne _)
  · simp only [hr, hinner] at hrun hlen
    rw [run_bind_ok hr]
    rcases s' with ⟨_, _, _ | ⟨x, rest⟩, _, _, _, _, _, _⟩
    · exact absurd (hlen trivial) (by simp)
    have hrest : rest.length = s.frames.length := Nat.succ.inj (hlen trivial)
    refine ⟨fun returns => (run_bind_ok (hrun returns)).trans ?_, fun _ => hrest, fun frame _ => hP frame⟩
    simp only [Session.withReturns, setReturns_cons (show below < rest.length by omega)]
    rfl

theorem ignores_runBody {cfg : Setting} {n : Nat} {body : List Stmt}
    (hexecute : ∀ scope, Ignores below (w + 1) ((machine cfg n).execute body scope) fun _ => True) (env : Env)
    (depth : Int) : Ignores below w ((machine cfg n).runBody body env depth) fun _ => True := by
  have hscope : Ignores below w (newScope env) fun _ => True :=
    .of_others (fun _ _ => rfl) fun _ => trivial
  have hinner (scope : Nat) : Ignores below (w + 1) ((machine cfg n).inFrame body scope) fun _ => True := by
    refine (hexecute scope).bind fun flow _ => ?_
    split
    · exact ignores_recordReturn (Nat.succ_pos w) .null
    · exact fun s hs => ⟨fun _ => rfl, fun _ => rfl, fun _ _ => trivial⟩
  have hpath := inFrame_ne_unreachable cfg n body
  rw [runBody_eq]
  exact hscope.bind fun scope _ => ignores_inFrame depth (hinner scope) (hpath scope) fun _ => trivial

def ignoring (below : Nat) (cfg : Setting) (n : Nat) : RunLogic Unit where
  setting := cfg
  evaluate _ := (machine cfg n).evaluate
  execute _ := (machine cfg n).execute
  World := Nat
  later w w' := w' = w
  Body w := 0 < w
  Judges _ w act P := Ignores below w (act ()) (P w)

theorem ignoring_machine (below : Nat) (cfg : Setting) (n : Nat) (i : Unit) :
    (ignoring below cfg n).machine i = machine cfg n :=
  machine_eta cfg n

theorem ignoring_lawful (below : Nat) (cfg : Setting) (n : Nat) : (ignoring below cfg n).Lawful where
  refl _ := rfl
  trans hv hw := hw.trans hv
  body_later hw hb := hw ▸ hb
  pure_view ha s hs := ⟨fun _ => rfl, fun _ => rfl, fun _ hb => Except.ok.inj hb ▸ ha⟩
  bind_view hx hf := Ignores.bind hx fun a ha => hf _ a rfl ha
  throw _ s hs := ⟨fun _ => rfl, fun _ => rfl, nofun⟩
  located module pos hx :=
    Ignores.mapResult hx (run_located module pos _) (fun _ => continues_of_mapError) fun _ _ => of_mapError_eq_ok
  endingPath hx := Ignores.mapResult hx (run_endingPath _) (fun _ => continues_of_endedPath) fun _ _ _ _ =>
    ⟨fun _ _ => trivial, fun _ _ => trivial, fun _ _ => trivial⟩
  marked _ := .of_others (fun _ _ => rfl) fun _ => trivial
  newScope _ := .of_others (fun _ _ => rfl) fun _ => trivial
  envOf _ := .of_others (fun _ _ => rfl) fun _ _ _ => Value.meets_true _
  envOf_free _ := .of_others (fun _ _ => rfl) fun _ _ _ => Value.meets_true _
  changeEnv _ _ := .of_others (fun _ _ => rfl) fun _ => trivial
  newClosure _ _ := .of_others (fun _ _ => rfl) Value.meets_true
  closure? _ := .of_others (fun _ _ => rfl) fun _ _ _ => trivial
  constant? _ := .of_others (fun _ _ => rfl) fun _ _ _ => trivial
  setConstant _ _ := .of_others (fun _ _ => rfl) fun _ => trivial
  changeFrame _ hf := ignores_changeFrame fun fs _ _ => setReturns_modifyHead hf fs
  recordReturn hw _ := ignores_recordReturn hw _
  handled? s _ := by
    refine ⟨fun returns => ?_, fun _ => rfl, fun _ _ => trivial⟩
    exact congrArg (fun o => (Except.ok o, s.withReturns below returns)) (head?_setReturns (fun _ _ => rfl) s.frames)
  nextDepth s hs := by
    refine ⟨fun returns => ?_, fun _ => by rw [run_nextDepth], fun _ _ => trivial⟩
    have hdepth : ((setReturns returns below s.frames).head?.bind fun f => some (f.depth + 1)) =
        s.frames.head?.bind fun f => some (f.depth + 1) := head?_setReturns (fun _ _ => rfl) s.frames
    simp only [run_nextDepth, Session.withReturns, Option.map_eq_bind, Function.comp_def, hdepth]
  isRunning _ := .of_others (fun _ _ => rfl) fun _ => trivial
  askMocked _ := ignores_ask _ _
  askUnmocked _ _ := (ignores_ask _ _).bind fun _ _ => ignores_reportOnce _ _
  reportMissing _ _ _ := ignores_reportOnce _ _

theorem ignoring_tracks (below : Nat) (cfg : Setting) (n : Nat) : (ignoring below cfg n).Tracks where
  assumed? _ := .of_others (fun _ _ => rfl) fun _ _ _ => trivial
  reenter _ := .of_others (fun _ _ => rfl) fun _ => trivial
  hasReentered _ := .of_others (fun _ _ => rfl) fun _ => trivial
  assume _ _ := .of_others (fun _ _ => rfl) fun _ => trivial
  finish := .of_others (fun _ _ => rfl) fun _ => trivial

theorem ignoring_jumps_of {cfg : Setting} {n : Nat}
    (hevaluate : ∀ e scope w, Ignores below w ((machine cfg n).evaluate e scope) fun _ => True)
    (hexecute : ∀ body scope w, Ignores below (w + 1) ((machine cfg n).execute body scope) fun _ => True)
    (start : Nat) : (ignoring below cfg n).Jumps () start := by
  have hl := ignoring_lawful below cfg n
  refine hl.jumps_of_evaluate (ignoring_tracks below cfg n) ?_ fun {w} e scope _ _ =>
    hl.mono (P := fun _ _ => True) (hevaluate e scope w) fun _ v _ _ => v.meets_true
  intro w env depth body _ _ _ _
  refine hl.mono (P := fun _ _ => True) ?_ fun _ _ _ _ _ _ => trivial
  simp only [ignoring_machine]
  exact ignores_runBody (fun scope => hexecute body scope w) env depth

theorem ignoring_jumps (below : Nat) (cfg : Setting) (n start : Nat) : (ignoring below cfg n).Jumps () start := by
  induction n generalizing start with
  | zero =>
    have hthrow {α : Type} (w : Nat) : Ignores below w (throw .exhausted : Run α) fun _ => True := fun s hs =>
      ⟨fun _ => rfl, fun _ => rfl, fun _ _ => trivial⟩
    exact ignoring_jumps_of (fun _ _ w => hthrow w) (fun _ _ w => hthrow (w + 1)) start
  | succ n ih =>
    have hl := ignoring_lawful below cfg n
    refine ignoring_jumps_of (fun e scope w => ?_) (fun body scope w => ?_) start
    · have he := hl.evaluates (ih w) e w scope rfl trivial
      simp only [ignoring_machine] at he
      exact hl.mono he fun _ _ _ _ => trivial
    · have hb := hl.execBlock (ih (w + 1)) body (w + 1) scope rfl (Nat.succ_pos w) trivial
      simp only [ignoring_machine] at hb
      exact hl.mono hb fun _ _ _ _ => trivial

def Session.returning (s : Session) (ts : List Ty) : Session :=
  { s with frames := s.frames.modifyHead fun f => { f with returns := f.returns ++ ts } }

theorem run_recordReturn (t : Ty) (s : Session) : (recordReturn t).run s = (.ok (), s.returning [t]) :=
  run_changeFrame _ s

theorem returning_nil (s : Session) : s.returning [] = s := by
  rcases s with ⟨_, _, _ | ⟨x, rest⟩, _, _, _, _, _, _⟩
  · rfl
  · simp [Session.returning]

theorem returning_returning (s : Session) (ts us : List Ty) :
    (s.returning ts).returning us = s.returning (ts ++ us) := by
  rcases s with ⟨_, _, _ | ⟨x, rest⟩, _, _, _, _, _, _⟩
  · rfl
  · simp [Session.returning]

theorem exists_withReturns (hs : s.frames.length = below + 1) : ∃ before, s.withReturns below before = s := by
  rcases s with ⟨_, _, _ | ⟨x, rest⟩, _, _, _, _, _, _⟩
  · cases hs
  · obtain rfl : rest.length = below := Nat.succ.inj hs
    exact ⟨x.returns, by simp only [Session.withReturns, setReturns_head]⟩

theorem returning_eq {before : List Ty} (hs : s.frames.length = below + 1) (hw : s.withReturns below before = s)
    (ts : List Ty) : s.returning ts = s.withReturns below (before ++ ts) := by
  rcases s with ⟨_, _, _ | ⟨x, rest⟩, _, _, _, _, _, _⟩
  · cases hs
  · obtain rfl : rest.length = below := Nat.succ.inj hs
    simp only [Session.withReturns, setReturns_head, Session.mk.injEq, List.cons.injEq] at hw
    obtain rfl : before = x.returns := congrArg Frame.returns hw.2.2.1.1
    simp only [Session.withReturns, Session.returning, setReturns_head, List.modifyHead_cons]

section

variable {act : Run α} {P : α → Prop} (h : Ignores below 0 act P) (hs : s.frames.length = below + 1)

include h hs

theorem Ignores.result_returning (ts : List Ty) : (act.run (s.returning ts)).1 = (act.run s).1 := by
  obtain ⟨before, hbefore⟩ := exists_withReturns hs
  rw [returning_eq hs hbefore, (h s (by omega)).1]

theorem Ignores.run_returning (hc : Continues (act.run s).1) (ts : List Ty) :
    act.run (s.returning ts) = ((act.run s).1, (act.run s).2.returning ts) := by
  obtain ⟨hrun, hlen, _⟩ := h s (by omega)
  obtain ⟨before, hbefore⟩ := exists_withReturns hs
  -- The frame has returned the same before and after the action.
  have hafter : (act.run s).2.withReturns below before = (act.run s).2 := by
    have hsame := hrun before
    rw [hbefore] at hsame
    exact (congrArg Prod.snd hsame).symm
  rw [returning_eq hs hbefore, hrun, returning_eq ((hlen hc).trans hs) hafter]

end

end Casewise.Symbolic
