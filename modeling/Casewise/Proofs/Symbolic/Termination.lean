import Casewise.Proofs.Marking
import Casewise.Proofs.Symbolic.Actions
import Casewise.Proofs.Symbolic.Defaults
import Casewise.Proofs.Symbolic.Execution

/-!
Runs end. Within a number of nested jumps a run is given up when it needs more; if defaults never lead back to
themselves, then enough jumps are enough, and more of them change nothing. Calls nest as deeply as the limit allows, a
constant is only evaluated once, and between the two the defaults of an expression lead to others that need less.
-/

namespace Casewise.Symbolic

variable {cfg : Setting} {α β : Type} {s : Session}

/-- The default that is evaluated, or none in other code. -/
abbrev Level := Option Expr

section

variable (cfg) (l : Level)

def Level.Closes (params : Params Expr) : Prop := ∀ d, l = some d → ∀ x ∈ params.defaultValues, cfg.Needs d x

def Level.Knows (name : String) : Prop :=
  ∀ d, l = some d → cfg.mocks.resolve? name = none ∧ ∃ p, d.Within (.name p name)

end

structure Known where
  levels : List Level
  closures : List (Params Expr)
  depths : List Int
  constants : List String

namespace Known

variable {w w' : Known} {l : Level}

structure Grows (w w' : Known) : Prop where
  levels : w.levels <+: w'.levels
  closures : w.closures <+: w'.closures
  depths : w'.depths = w.depths
  constants : ∀ name ∈ w.constants, name ∈ w'.constants

theorem Grows.refl (w : Known) : w.Grows w := ⟨List.prefix_rfl, List.prefix_rfl, rfl, fun _ h => h⟩

theorem Grows.trans {u v w : Known} (h : u.Grows v) (h' : v.Grows w) : u.Grows w where
  levels := h.levels.trans h'.levels
  closures := h.closures.trans h'.closures
  depths := h'.depths.trans h.depths
  constants name hn := h'.constants name (h.constants name hn)

theorem getElem?_of_prefix {γ : Type} {as bs : List γ} {i : Nat} {a : γ} (h : as <+: bs) (ha : as[i]? = some a) :
    bs[i]? = some a := by
  obtain ⟨rest, rfl⟩ := h
  obtain ⟨hi, _⟩ := List.getElem?_eq_some_iff.mp ha
  rwa [List.getElem?_append_left hi]

variable (cfg)

def Made (w : Known) (l : Level) (id : Nat) : Prop :=
  ∀ d, l = some d → ∃ params, w.closures[id]? = some params ∧ l.Closes cfg params

def Fits (w : Known) (l : Level) : Value → Prop := Value.Meets (fun _ => True) (l.Knows cfg) (w.Made cfg l)

structure Describes (w : Known) (s : Session) : Prop where
  size : s.scopes.size = w.levels.length
  scopes : ∀ (i : Nat) (l : Level) (env : Env), w.levels[i]? = some l → s.scopes[i]? = some env → env.All (w.Fits cfg l)
  closures : s.closures.toList.map (·.params) = w.closures
  depths : s.frames.map (·.depth) = w.depths
  constants : ∀ name ∈ w.constants, name ∈ s.constants.names

variable {cfg}

def next (w : Known) : Int := (w.depths.head?.map (· + 1)).getD 0

theorem Grows.next (hw : w.Grows w') : w'.next = w.next := by
  rw [Known.next, hw.depths, Known.next]

theorem Describes.next (hs : w.Describes cfg s) : (s.frames.head?.map (·.depth + 1)).getD 0 = w.next := by
  rw [Known.next, ← hs.depths, List.head?_map, Option.map_map]
  rfl

theorem Made.grows {id : Nat} (hw : w.Grows w') (h : w.Made cfg l id) : w'.Made cfg l id := by
  intro d hd
  obtain ⟨params, hp, hc⟩ := h d hd
  exact ⟨params, getElem?_of_prefix hw.closures hp, hc⟩

theorem fits_grows (hw : w.Grows w') {v : Value} (h : w.Fits cfg l v) : w'.Fits cfg l v := by
  cases v with
  | closure id n => exact Made.grows hw h
  | _ => exact h

theorem fits_free (v : Value) : w.Fits cfg none v := by
  cases v <;> first | trivial | exact nofun

end Known

/-- For enough jumps the action ends, in the same way for any more of them, and unless the run ends there as well it
ends in a session of which more is known. -/
def Halts (cfg : Setting) (w : Known) (act : Nat → Run α) (P : Known → α → Prop) : Prop :=
  ∀ s, w.Describes cfg s → ∃ k r s', (∀ n, k ≤ n → (act n).run s = (r, s')) ∧ r ≠ .error .exhausted ∧
    (Continues r → ∃ w', w.Grows w' ∧ w'.Describes cfg s' ∧ ∀ a, r = .ok a → P w' a)

variable {w : Known}

theorem Halts.bind {x : Nat → Run α} {f : Nat → α → Run β} {P : Known → α → Prop} {Q : Known → β → Prop}
    (hx : Halts cfg w x P) (hf : ∀ w' a, w.Grows w' → P w' a → Halts cfg w' (fun n => f n a) Q) :
    Halts cfg w (fun n => x n >>= f n) Q := by
  intro s hs
  obtain ⟨k, r, s', hrun, hne, hc⟩ := hx s hs
  cases r with
  | error stop =>
    refine ⟨k, .error stop, s', fun n hn => run_bind_error (hrun n hn), fun he => hne (Except.error.inj he ▸ rfl), ?_⟩
    intro hstop
    obtain ⟨w', hw', hd, _⟩ := hc hstop
    exact ⟨w', hw', hd, nofun⟩
  | ok a =>
    obtain ⟨w', hw', hd, ha⟩ := hc trivial
    obtain ⟨k', r, s'', hrun', hne', hc'⟩ := hf w' a hw' (ha a rfl) s' hd
    refine ⟨max k k', r, s'', fun n hn => ?_, hne', fun h => ?_⟩
    · rw [run_bind_ok (hrun n (le_of_max_le_left hn))]
      exact hrun' n (le_of_max_le_right hn)
    · obtain ⟨w'', hw'', hd', hb⟩ := hc' h
      exact ⟨w'', hw'.trans hw'', hd', hb⟩

theorem Halts.mapResult {x : Nat → Run α} {y : Nat → Run β} {f : Except Stop α → Except Stop β}
    {P : Known → α → Prop} {Q : Known → β → Prop} (hx : Halts cfg w x P)
    (hy : ∀ n s, (y n).run s = (f ((x n).run s).1, ((x n).run s).2))
    (hne : ∀ r, r ≠ .error .exhausted → f r ≠ .error .exhausted)
    (hf : ∀ r, Continues (f r) → Continues r) (hQ : ∀ w' r b, f r = .ok b → (∀ a, r = .ok a → P w' a) → Q w' b) :
    Halts cfg w y Q := by
  intro s hs
  obtain ⟨k, r, s', hrun, hr, hc⟩ := hx s hs
  refine ⟨k, f r, s', fun n hn => ?_, hne r hr, fun h => ?_⟩
  · rw [hy, hrun n hn]
  · obtain ⟨w', hw', hd, ha⟩ := hc (hf r h)
    exact ⟨w', hw', hd, fun b hb => hQ w' r b hb ha⟩

theorem halts_modifyGet {g : Session → α × Session} {P : Known → α → Prop}
    (hg : ∀ s, w.Describes cfg s → ∃ w', w.Grows w' ∧ w'.Describes cfg (g s).2 ∧ P w' (g s).1) :
    Halts cfg w (fun _ => modifyGet g) P := by
  intro s hs
  obtain ⟨w', hw', hd, hp⟩ := hg s hs
  exact ⟨0, .ok (g s).1, (g s).2, fun _ _ => rfl, nofun, fun _ => ⟨w', hw', hd, fun a ha => Except.ok.inj ha ▸ hp⟩⟩

theorem halts_modify {g : Session → Session} (hg : ∀ s, w.Describes cfg s → w.Describes cfg (g s)) :
    Halts cfg w (fun _ => modify g) fun _ _ => True :=
  halts_modifyGet fun s hs => ⟨w, .refl w, hg s hs, trivial⟩

theorem halts_read {g : Session → α} {P : Known → α → Prop} (hg : ∀ s, w.Describes cfg s → P w (g s)) :
    Halts cfg w (fun _ => do return g (← get)) P :=
  halts_modifyGet (g := fun s => (g s, s)) fun s hs => ⟨w, .refl w, hs, hg s hs⟩

theorem halts_changeFrame {f : Frame → Frame} (hf : ∀ x, (f x).depth = x.depth) :
    Halts cfg w (fun _ => changeFrame f) fun _ _ => True := by
  intro s hs
  refine ⟨0, .ok (), _, fun _ _ => run_changeFrame f s, nofun,
    fun _ => ⟨w, .refl w, { hs with depths := ?_ }, fun _ _ => trivial⟩⟩
  rw [← hs.depths]
  cases s.frames with
  | nil => rfl
  | cons x rest => simp only [List.modifyHead_cons, List.map_cons, hf]

theorem halts_reportOnce (d : Diagnostic) (covers : Diagnostic → Bool) :
    Halts cfg w (fun _ => reportOnce d covers) fun _ _ => True := by
  refine halts_modify fun s hs => ?_
  split
  · exact hs
  · exact { hs with }

theorem halts_ask (written path : String) : Halts cfg w (fun _ => ask written path) fun _ _ => True :=
  halts_modify fun _ hs => { hs with }

theorem halts_newScope {l : Level} {env : Env} (he : env.All (w.Fits cfg l)) :
    Halts cfg w (fun _ => newScope env) fun w' scope => w'.levels[scope]? = some l := by
  refine halts_modifyGet fun s hs => ?_
  have hgrows : w.Grows { w with levels := w.levels ++ [l] } :=
    ⟨List.prefix_append _ _, List.prefix_rfl, rfl, fun _ h => h⟩
  refine ⟨_, hgrows, { hs with size := ?_, scopes := fun i l' env' hl he' => ?_ }, ?_⟩
  · simp [hs.size]
  · rw [Array.getElem?_push] at he'
    split at he'
    · next hi =>
      subst hi
      rw [hs.size, List.getElem?_concat_length] at hl
      obtain rfl := Option.some.inj hl
      obtain rfl := Option.some.inj he'
      exact fun b hb => Known.fits_grows hgrows (he b hb)
    · obtain ⟨hi, _⟩ := Array.getElem?_eq_some_iff.mp he'
      rw [List.getElem?_append_left (hs.size ▸ hi)] at hl
      exact fun b hb => Known.fits_grows hgrows (hs.scopes i l' env' hl he' b hb)
  · simp [hs.size]

theorem halts_newClosure {l : Level} {c : Closure} (hc : l.Closes cfg c.params) :
    Halts cfg w (fun _ => newClosure c) fun w' v => w'.Fits cfg l v := by
  refine halts_modifyGet fun s hs => ?_
  have hgrows : w.Grows { w with closures := w.closures ++ [c.params] } :=
    ⟨List.prefix_rfl, List.prefix_append _ _, rfl, fun _ h => h⟩
  have hsize : s.closures.size = w.closures.length := by
    rw [← hs.closures]
    simp
  refine ⟨_, hgrows, { hs with scopes := fun i l' env hl he b hb => ?_, closures := ?_ },
    fun d hd => ⟨c.params, ?_, hc⟩⟩
  · exact Known.fits_grows hgrows (hs.scopes i l' env hl he b hb)
  · simp [hs.closures]
  · simp [hsize]

def halting (cfg : Setting) : RunLogic Nat where
  setting := cfg
  evaluate n := (machine cfg n).evaluate
  execute n := (machine cfg n).execute
  World := Known
  later := Known.Grows
  Level := Level
  free := none
  Admits l e := ∀ d, l = some d → d.Within e
  Closes l params := l.Closes cfg params
  Knows l name := l.Knows cfg name
  Made w l id := w.Made cfg l id
  At w l scope := w.levels[scope]? = some l
  Depth w depth := depth = w.next
  Judges _ w act P := Halts cfg w act P

theorem halting_machine (cfg : Setting) (n : Nat) : (halting cfg).machine n = machine cfg n := machine_eta cfg n

theorem halting_lawful (cfg : Setting) : (halting cfg).Lawful where
  refl := Known.Grows.refl
  trans := Known.Grows.trans
  operand h hc d hd := (h d hd).operand hc
  name h hn d hd := ⟨hn, _, h d hd⟩
  lambda h d hd x hx := .lambda (h d hd) hx
  function {l n f} h hf d hd x hx := by
    obtain ⟨hn, p, hw⟩ := h d hd
    exact .function hw (by rw [Setting.function?, hn]; exact hf) hx
  admits_free _ := nofun
  closes_free _ := nofun
  knows_free _ := nofun
  made_free _ _ := nofun
  made_later hw h := Known.Made.grows hw h
  at_later hw h := Known.getElem?_of_prefix hw.levels h
  depth_later hw h := h.trans hw.next.symm
  pure_view {_ _ w a P} ha s hs :=
    ⟨0, .ok a, s, fun _ _ => rfl, nofun, fun _ => ⟨w, .refl w, hs, fun _ hb => Except.ok.inj hb ▸ ha⟩⟩
  bind_view := Halts.bind
  throw {_ _ w stop P} hne s hs :=
    ⟨0, .error stop, s, fun _ _ => rfl, fun h => hne (Except.error.inj h), fun _ => ⟨w, .refl w, hs, nofun⟩⟩
  located module pos hx := by
    refine Halts.mapResult hx (fun n => run_located module pos _) (fun r hr => ?_) (fun _ => continues_of_mapError)
      fun _ _ _ => of_mapError_eq_ok
    cases r with
    | ok a => exact nofun
    | error stop => exact fun h => placed_ne_exhausted (fun he => hr (he ▸ rfl)) (Except.error.inj h)
  endingPath hx := by
    refine Halts.mapResult hx (fun n => run_endingPath _) (fun r hr => ?_) (fun _ => continues_of_endedPath)
      fun w' r b hb ha => ?_
    · cases r with
      | ok a => exact nofun
      | error stop =>
        cases stop with
        | exhausted => exact absurd rfl hr
        | _ => exact nofun
    · cases r with
      | ok a => exact Except.ok.inj hb ▸ ha a rfl
      | error stop =>
        cases stop with
        | unreachable => exact Except.ok.inj hb ▸ ⟨nofun, nofun, nofun⟩
        | _ => cases hb
  marked _ := halts_modifyGet fun s hs => ⟨_, .refl _, { hs with }, trivial⟩
  newScope he := halts_newScope he
  envOf {w l scope} hl := show Halts cfg w (fun _ => envOf scope) _ from halts_read fun s hs => by
    cases he : s.scopes[scope]? with
    | none => exact nofun
    | some env => exact hs.scopes scope l env hl he
  envOf_free scope := show Halts cfg _ (fun _ => envOf scope) _ from halts_read fun _ _ _ _ => Known.fits_free _
  changeEnv {w l scope f} hl hf := by
    show Halts cfg w (fun _ => changeEnv scope f) _
    refine halts_modify fun s hs => { hs with size := ?_, scopes := fun i l' env hl' he => ?_ }
    · rw [Array.size_modify, hs.size]
    · rw [Array.getElem?_modify] at he
      split at he
      · next hi =>
        subst hi
        obtain rfl := Option.some.inj (hl.symm.trans hl')
        obtain ⟨old, hold, rfl⟩ := Option.map_eq_some_iff.mp he
        exact hf old (hs.scopes _ _ old hl hold)
      · exact hs.scopes i l' env hl' he
  newClosure hc _ := halts_newClosure hc
  closure? {w l id} hm := halts_read fun s hs c hc d hd => by
    obtain ⟨params, hp, hcl⟩ := hm d hd
    rw [← hs.closures, List.getElem?_map, Array.getElem?_toList, hc] at hp
    obtain rfl : c.params = params := Option.some.inj hp
    exact hcl d hd
  constant? _ := halts_read fun _ _ _ _ => trivial
  setConstant name _ := halts_modify fun s hs => { hs with constants := fun other ho => (by
    rw [Bindings.names_set]
    split
    · exact hs.constants other ho
    · exact List.mem_append_left _ (hs.constants other ho)) }
  changeFrame hf _ := halts_changeFrame hf
  recordReturn _ _ := halts_changeFrame fun _ => rfl
  handled? := halts_read fun _ _ => trivial
  nextDepth {w} s hs := by
    refine ⟨0, _, s, fun _ _ => run_nextDepth s, nofun, fun _ => ⟨w, .refl w, hs, fun a ha => ?_⟩⟩
    exact (Except.ok.inj ha).symm.trans hs.next
  isRunning _ := halts_read fun _ _ => trivial
  askMocked _ := halts_ask _ _
  askUnmocked _ _ := (halts_ask _ _).bind fun _ _ _ _ => halts_reportOnce _ _
  reportMissing _ _ _ := halts_reportOnce _ _

theorem halting_tracks (cfg : Setting) : (halting cfg).Tracks where
  assumed? _ := halts_read fun _ _ _ _ => trivial
  reenter _ := halts_modify fun _ hs => { hs with }
  hasReentered _ := halts_read fun _ _ => trivial
  assume _ _ := halts_modify fun _ hs => { hs with }
  finish := halts_modify fun _ hs => { hs with }

theorem Halts.succ {act act' : Nat → Run α} {P : Known → α → Prop} (h : Halts cfg w act P)
    (hact : ∀ n, act' (n + 1) = act n) : Halts cfg w act' P := by
  intro s hs
  obtain ⟨k, r, s', hrun, hr⟩ := h s hs
  refine ⟨k + 1, r, s', fun n hn => ?_, hr⟩
  obtain ⟨n, rfl⟩ := Nat.exists_eq_add_of_lt hn
  rw [hact]
  exact hrun _ (Nat.le_add_right k n)

theorem halts_inFrame {act : Nat → Run Unit} {depth : Int}
    (h : Halts cfg { w with depths := depth :: w.depths } act fun _ _ => True)
    (hne : ∀ n s, ((act n).run s).1 ≠ .error .unreachable) :
    Halts cfg w (fun n => do pushFrame depth; act n; popFrame) fun _ _ => True := by
  intro s hs
  have hpush (s : Session) : (pushFrame depth).run s = (.ok (), { s with frames := { depth } :: s.frames }) := rfl
  obtain ⟨k, r, s', hrun, hr, hc⟩ := h { s with frames := { depth } :: s.frames }
    { hs with scopes := hs.scopes, depths := by simp [hs.depths] }
  cases r with
  | error stop =>
    refine ⟨k, .error stop, s', fun n hn => ?_, fun he => hr (Except.error.inj he ▸ rfl), ?_⟩
    · rw [run_bind_ok (hpush s), run_bind_error (hrun n hn)]
    · rintro rfl
      exact absurd (congrArg Prod.fst (hrun k (Nat.le_refl k))) (hne k _)
  | ok u =>
    obtain ⟨w', hw', hd, _⟩ := hc trivial
    rcases s' with ⟨scopes, closures, _ | ⟨x, rest⟩, running, reentered, constants, diagnostics, supply, asked⟩
    · exact absurd (hd.depths.trans hw'.depths) nofun
    refine ⟨k, .ok x, ⟨scopes, closures, rest, running, reentered, constants, diagnostics, supply, asked⟩, fun n hn => ?_,
      nofun, fun _ => ⟨{ w' with depths := w.depths }, { hw' with depths := rfl }, ?_, fun _ _ => trivial⟩⟩
    · rw [run_bind_ok (hpush s), run_bind_ok (hrun n hn)]
      rfl
    · exact { hd with scopes := hd.scopes, depths := (List.cons.inj (hd.depths.trans hw'.depths)).2 }

theorem halts_runBody {body : List Stmt} {env : Env} {depth : Int}
    (hexecute : ∀ w' scope, w.Grows w' → w'.levels[scope]? = some none →
      Halts cfg { w' with depths := depth :: w'.depths } (fun n => (machine cfg n).execute body scope)
        fun _ _ => True) :
    Halts cfg w (fun n => (machine cfg n).runBody body env depth) fun _ _ => True := by
  have hl := halting_lawful cfg
  simp only [runBody_eq]
  refine (halts_newScope (l := none) fun _ _ => Known.fits_free _).bind fun w' scope hw' hscope => ?_
  refine halts_inFrame ?_ fun n => inFrame_ne_unreachable cfg n body scope
  refine (hexecute w' scope hw' hscope).bind fun _ flow _ _ => ?_
  split
  · exact halts_changeFrame fun _ => rfl
  · exact hl.pure trivial

def Known.remaining (cfg : Setting) (w : Known) : Nat := (cfg.limits.depth + 1 - w.next).toNat

def Known.unread (cfg : Setting) (w : Known) : Nat :=
  (cfg.module.constants.names.filter fun name => decide (name ∉ w.constants)).length

theorem Known.Grows.remaining_eq {w' : Known} (hw : w.Grows w') : w'.remaining cfg = w.remaining cfg := by
  rw [Known.remaining, hw.next, Known.remaining]

theorem Known.Grows.unread_le {w' : Known} (hw : w.Grows w') : w'.unread cfg ≤ w.unread cfg := by
  refine List.Sublist.length_le (List.monotone_filter_right _ fun name hn => ?_)
  simp only [decide_eq_true_eq] at hn ⊢
  exact mt (hw.constants name) hn

theorem Known.unread_lt {name : String} (hname : name ∈ cfg.module.constants.names) (hw : name ∉ w.constants) :
    Known.unread cfg { w with constants := name :: w.constants } < w.unread cfg := by
  have hsub : (cfg.module.constants.names.filter fun n => decide (n ∉ name :: w.constants)).Sublist
      (cfg.module.constants.names.filter fun n => decide (n ∉ w.constants)) :=
    List.monotone_filter_right _ fun n hn => by simp_all
  refine Nat.lt_of_le_of_ne hsub.length_le fun heq => ?_
  have hmem : name ∈ cfg.module.constants.names.filter fun n => decide (n ∉ w.constants) := by simp [hname, hw]
  rw [← hsub.eq_of_length heq] at hmem
  simp at hmem

def Level.Below (cfg : Setting) : Level → Level → Prop
  | some x, some d => cfg.Needs d x
  | some _, none => True
  | none, _ => False

theorem wellFounded_below (h : ∀ f, ¬ Relation.TransGen cfg.DefaultsUse f f) : WellFounded (Level.Below cfg) := by
  have hsome (d : Expr) : Acc (Level.Below cfg) (some d) := by
    induction d using (WellFounded.intro (Setting.acc_needs h)).induction with
    | _ d ih =>
      refine ⟨_, fun l hl => ?_⟩
      cases l with
      | none => exact absurd hl nofun
      | some x => exact ih x hl
  refine ⟨fun l => ?_⟩
  cases l with
  | some d => exact hsome d
  | none =>
    refine ⟨_, fun l hl => ?_⟩
    cases l with
    | none => exact absurd hl nofun
    | some x => exact hsome x

section

variable {l : Level}

theorem halts_evaluate {e : Expr} {scope : Nat} (hj : (halting cfg).Jumps l w) (he : (halting cfg).Admits l e)
    (hscope : w.levels[scope]? = some l) :
    Halts cfg w (fun n => (machine cfg n).evaluate e scope) fun w' v => w'.Fits cfg l v := by
  have hl := halting_lawful cfg
  have heval := (hl.evaluates_and_assigns hj e he).1 w scope (.refl w) hscope
  simp only [halting_machine] at heval
  exact Halts.succ heval fun _ => rfl

theorem halts_execute {body : List Stmt} {scope : Nat} (hj : (halting cfg).Jumps none w)
    (hscope : w.levels[scope]? = some none) :
    Halts cfg w (fun n => (machine cfg n).execute body scope) fun _ _ => True := by
  have hl := halting_lawful cfg
  have hblock := hl.execBlock hj body w scope (.refl w) trivial hscope
  simp only [halting_machine] at hblock
  exact Halts.succ (hl.mono hblock fun _ _ _ _ => trivial) fun _ => rfl

theorem halts_outside {e : Expr} (hj : ∀ w', w.Grows w' → (halting cfg).Jumps l w') (he : (halting cfg).Admits l e) :
    Halts cfg w (fun n => (machine cfg n).outside e) fun _ _ => True := by
  have houtside := (halting_lawful cfg).outside (w := w) (l := l) (e := e) fun w' scope hw' hscope =>
    halts_evaluate (hj w' hw') he hscope
  simp only [halting_machine] at houtside
  exact houtside

theorem halts_constant {name : String} {e : Expr} (hname : name ∈ cfg.module.constants.names)
    (hj : ∀ w', w'.remaining cfg = w.remaining cfg → w'.unread cfg < w.unread cfg → (halting cfg).Jumps none w') :
    Halts cfg w (fun n => (machine cfg n).constant name e) fun _ _ => True := by
  intro s hs
  have hl := halting_lawful cfg
  have hfound : (constant? name).run s = (.ok (s.constants.get? name), s) := rfl
  cases hc : s.constants.get? name with
  | some t =>
    rw [hc] at hfound
    refine ⟨0, .ok t, s, fun n _ => ?_, nofun, fun _ => ⟨w, .refl w, hs, fun _ _ => trivial⟩⟩
    unfold Machine.constant
    rw [run_bind_ok hfound]
    rfl
  | none =>
    rw [hc] at hfound
    have hnew : name ∉ w.constants := fun hm => Bindings.get?_eq_none_iff.mp hc (hs.constants name hm)
    have hgrows : w.Grows { w with constants := name :: w.constants } :=
      ⟨List.prefix_rfl, List.prefix_rfl, rfl, fun _ => List.mem_cons_of_mem name⟩
    have hset : (setConstant name .unknown).run s =
        (.ok (), { s with constants := s.constants.set name .unknown }) := rfl
    have hrest : Halts cfg { w with constants := name :: w.constants } (fun n => do
        let t ← (machine cfg n).outside e
        setConstant name t
        return t) fun _ _ => True := by
      refine (halts_outside (l := none) (fun w' hw' => hj w' ?_ ?_) nofun).bind fun _ t _ _ => ?_
      · exact hw'.remaining_eq
      · exact Nat.lt_of_le_of_lt hw'.unread_le (Known.unread_lt hname hnew)
      · exact hl.bind (hl.setConstant name trivial) fun _ _ _ _ => hl.pure trivial
    have hdescribes : Known.Describes cfg { w with constants := name :: w.constants }
        { s with constants := s.constants.set name .unknown } := by
      refine { hs with scopes := hs.scopes, constants := fun other ho => ?_ }
      rw [Bindings.names_set]
      rcases List.mem_cons.mp ho with rfl | ho
      · split
        · assumption
        · simp
      · split
        · exact hs.constants other ho
        · exact List.mem_append_left _ (hs.constants other ho)
    obtain ⟨k, r, s', hrun, hr, hcont⟩ := hrest _ hdescribes
    refine ⟨k, r, s', fun n hn => ?_, hr, fun h => ?_⟩
    · unfold Machine.constant
      rw [run_bind_ok hfound]
      exact (run_bind_ok hset).trans (hrun n hn)
    · obtain ⟨w', hw', hd, ha⟩ := hcont h
      exact ⟨w', hgrows.trans hw', hd, ha⟩

theorem halting_jumps (h : ∀ f, ¬ Relation.TransGen cfg.DefaultsUse f f) (r u : Nat) (l : Level) (start : Known)
    (hr : start.remaining cfg ≤ r) (hu : start.unread cfg ≤ u) : (halting cfg).Jumps l start := by
  -- A body takes one of the remaining calls, a constant is not unread any more, and a default is below its level.
  induction r using Nat.strong_induction_on generalizing u l start with
  | _ r ihr =>
    induction u using Nat.strong_induction_on generalizing l start with
    | _ u ihu =>
      induction l using (wellFounded_below h).induction generalizing start with
      | _ l ihl =>
        apply (halting_lawful cfg).jumps (halting_tracks cfg)
        case constant =>
          intro w name e hw hc
          have hname : name ∈ cfg.module.constants.names :=
            not_not.mp (mt Bindings.get?_eq_none_iff.mpr (hc ▸ Option.some_ne_none e))
          simp only [halting_machine]
          refine halts_constant hname fun w' hr' hu' => ihu _ (hu'.trans_le (hw.unread_le.trans hu)) none w' ?_ le_rfl
          exact hr'.trans_le (hw.remaining_eq.trans_le hr)
        case default =>
          intro w params e hw hcloses he
          have hbelow : Level.Below cfg (some e) l := by
            cases l with
            | none => trivial
            | some d => exact hcloses d rfl e he
          simp only [halting_machine]
          refine halts_outside (fun w' hw' => ihl (some e) hbelow w' ?_ ?_) fun d hd => Option.some.inj hd ▸ .self
          · exact (hw.trans hw').remaining_eq.trans_le hr
          · exact (hw.trans hw').unread_le.trans hu
        case body =>
          intro w env depth body hw hdepth hle _
          refine (halting_lawful cfg).mono (P := fun _ _ => True) ?_ fun _ _ _ _ _ _ => trivial
          simp only [halting_machine]
          refine halts_runBody fun w' scope hw' hscope => halts_execute ?_ hscope
          refine ihr _ ?_ _ none _ le_rfl le_rfl
          have hnext : start.next = depth := hw.next.symm.trans hdepth.symm
          have hremaining : (cfg.limits.depth + 1 - depth).toNat ≤ r := hnext ▸ hr
          show (cfg.limits.depth + 1 - (depth + 1)).toNat < r
          have hle : depth ≤ cfg.limits.depth := hle
          omega

end

theorem isSome_resolve?_given (args : List Ty) (supply : Mark) (name : String) :
    (((given cfg args).run supply).1.1.mocks.resolve? name).isSome = (cfg.mocks.resolve? name).isSome :=
  (isSome_of_rel (MockChain.rel_resolve? (cfg.mocks.renumbered (f := Number.mark)
    ((args.mapM fun t : Ty => t.mapNumbers Number.mark).run supply).2) name)).symm

theorem defaultsUse_given {args : List Ty} {supply : Mark} {first second : String}
    (h : ((given cfg args).run supply).1.1.DefaultsUse first second) : cfg.DefaultsUse first second := by
  obtain ⟨f, hf, hused, hd⟩ := h
  refine ⟨f, hf, ?_, hd⟩
  unfold Setting.function? at hused ⊢
  rw [isSome_resolve?_given] at hused
  exact hused

/-- If the defaults of no function lead back to the function, a run ends: all large enough numbers of jumps give the
same result, and it is not that the run was given up. -/
theorem runWithin_settles (h : ∀ f, ¬ Relation.TransGen cfg.DefaultsUse f f) (name : String) (args : List Ty) :
    ∃ jumps result, result.1 ≠ .error .exhausted ∧ ∀ n, jumps ≤ n → runWithin n cfg name args = result := by
  have hgiven (f : String) :
      ¬ Relation.TransGen ((given cfg args).run ⟨cfg.number, 0⟩).1.1.DefaultsUse f f :=
    fun hf => h f (hf.lift id fun _ _ => defaultsUse_given)
  unfold runWithin
  generalize (given cfg args).run ⟨cfg.number, 0⟩ = g at hgiven ⊢
  obtain ⟨⟨cfg, args⟩, supply⟩ := g
  have hrun := (halting_lawful cfg).runFunction (halting_jumps hgiven _ _ none ⟨[], [], [], []⟩ le_rfl le_rfl) name
    (Known.Grows.refl _) rfl fun (t : Ty) (_ : t ∈ args) => trivial
  simp only [halting_machine] at hrun
  obtain ⟨k, r, s, hrun, hne, _⟩ := hrun { supply } ⟨rfl, by simp, rfl, rfl, by simp⟩
  refine ⟨k, (r, s.diagnostics), hne, fun n hn => ?_⟩
  simp only [hrun n hn]

def greeting : Setting where
  module := { file := "greeting", functions := [("name", name), ("greet", greet)] }
  mocks := []
where
  name : FunctionDef Stmt :=
    ⟨default, "name", {}, [.returns default (some (.constant default (.scalar (.string "you"))))], [], []⟩
  call : Expr := .call default (.name default "name") [] []
  greet : FunctionDef Stmt :=
    ⟨default, "greet", { ordinary := ["who"], defaults := [call] },
      [.returns default (some (.name default "who"))], [], []⟩

theorem greeting_reaches {e : Expr} (h : greeting.call.Reaches e) : e = greeting.call ∨ e = .name default "name" := by
  induction h with
  | self => exact .inl rfl
  | operand _ hc ih => rcases ih with rfl | rfl <;> simp_all [greeting.call, Expr.operands]
  | default _ _ ih => rcases ih with ih | ih <;> cases ih

theorem greeting_defaultsUse {first second : String} (h : greeting.DefaultsUse first second) :
    first = "greet" ∧ second = "name" := by
  obtain ⟨f, hf, _, d, hd, p, hr⟩ := h
  rcases List.mem_pair.mp (Bindings.mem_of_get? hf) with hf | hf
  · obtain ⟨rfl, rfl⟩ := Prod.mk.inj hf
    simp [greeting.name, Params.defaultValues] at hd
  · obtain ⟨rfl, rfl⟩ := Prod.mk.inj hf
    obtain rfl : d = greeting.call := by simpa [greeting.greet, Params.defaultValues] using hd
    rcases greeting_reaches hr with he | he
    · cases he
    · exact ⟨rfl, (Expr.name.inj he).2⟩

theorem greeting_settles :
    ∃ jumps result, result.1 ≠ .error .exhausted ∧ ∀ n, jumps ≤ n → runWithin n greeting "greet" [] = result := by
  refine runWithin_settles (fun f hf => ?_) "greet" []
  have hends {first second : String} (h : Relation.TransGen greeting.DefaultsUse first second) :
      first = "greet" ∧ second = "name" := by
    induction h with
    | single h => exact greeting_defaultsUse h
    | tail _ h ih => exact ⟨ih.1, (greeting_defaultsUse h).2⟩
  exact absurd ((hends hf).1.symm.trans (hends hf).2) (by decide)

section

variable {name x : String} {p q : Extent} {f : FunctionDef Stmt}

def bareCall (p q : Extent) (name : String) : Expr := .call p (.name q name) [] []

theorem run_bind_default {m : Machine} {e : Expr} {stop : Stop} {s' : Session} (function : String)
    (refuse : ArityError → Stop) (h : (m.outside e).run s = (.error stop, s')) :
    (m.bind { ordinary := [x], defaults := [e] } function [] [] refuse).run s = (.error stop, s') := by
  have hfill : Params.fill (α := Value) { ordinary := [x], defaults := [e] } function [] [] =
      .ok ⟨[(x, .default e)], none⟩ := by
    simp [Params.fill, Params.names, Params.positionalDefaults, Params.fillDefaults, Params.fillKeywordOnly,
      Params.fillRests, Bindings.ofPairs, Bindings.update, Bindings.has, Bindings.get?, Bindings.set, bind, pure,
      Except.bind, Except.pure]
  unfold Machine.bind
  rw [hfill]
  exact run_bind_error (run_bind_error (run_bind_error h))

theorem run_callNamed_default {m : Machine} {stop : Stop} {s' : Session} (hf : m.module.functions.get? name = some f)
    (hparams : f.params = { ordinary := [x], defaults := [bareCall p q name] })
    (h : (m.outside (bareCall p q name)).run s = (.error stop, s')) :
    (m.callNamed name [] []).run s = (.error stop, s') := by
  have hrunning : (isRunning name).run s = (.ok (s.running.any (·.1.function == name)), s) := rfl
  have hwiden : (Machine.widenRecursive name [] []).run s = (.ok ([], []), s) := by
    unfold Machine.widenRecursive
    rw [run_bind_ok hrunning]
    split <;> rfl
  unfold Machine.callNamed
  rw [hf]
  refine (run_bind_ok hwiden).trans (run_bind_error ?_)
  unfold Machine.bindCall
  rw [hparams]
  exact run_bind_default f.name _ h

theorem run_eval_bareCall {m : Machine} {scope arity : Nat}
    (h : (m.lookup name scope).run s = (.ok (.function name arity), s)) :
    (m.eval (bareCall p q name) scope).run s = (located m.module p (m.callNamed name [] [])).run s := by
  have hcallee : (m.eval (.name q name) scope).run s = (.ok (.function name arity), s) := by
    unfold Machine.eval
    rw [run_located, h]
    rfl
  change (located m.module p (m.eval (.name q name) scope >>= _)).run s = _
  rw [run_located, run_located, run_bind_ok hcallee]
  rfl

variable (hmock : cfg.mocks.resolve? name = none) (hf : cfg.module.functions.get? name = some f)
  (hparams : f.params = { ordinary := [x], defaults := [bareCall p q name] })

include hmock hf

theorem run_lookup_function (n : Nat) {scope : Nat} (hs : s.scopes[scope]? = some []) :
    ((machine cfg n).lookup name scope).run s = (.ok (.function name f.params.names.length), s) := by
  have henv : (envOf scope).run s = (.ok [], s) := by
    show (Except.ok ((s.scopes[scope]?).getD []), s) = _
    rw [hs]
    rfl
  unfold Machine.lookup
  rw [run_bind_ok henv, machine_setting, hmock, machine_module, hf]
  rfl

include hparams

theorem exists_run_outside_exhausted (n : Nat) (s : Session) :
    ∃ s', ((machine cfg n).outside (bareCall p q name)).run s = (.error .exhausted, s') := by
  induction n generalizing s with
  | zero => exact ⟨_, rfl⟩
  | succ n ih =>
    have hscope : (newScope []).run s = (.ok s.scopes.size, { s with scopes := s.scopes.push [] }) := rfl
    obtain ⟨s', hdefault⟩ := ih { s with scopes := s.scopes.push [] }
    have hcall := run_callNamed_default (by rwa [machine_module]) hparams hdefault
    have heval : ((machine cfg n).eval (bareCall p q name) s.scopes.size).run { s with scopes := s.scopes.push [] } =
        (.error .exhausted, s') := by
      rw [run_eval_bareCall (run_lookup_function hmock hf n (by simp)), run_located, hcall]
      rfl
    refine ⟨s', ?_⟩
    unfold Machine.outside
    rw [run_bind_ok hscope]
    exact run_bind_error heval

theorem runWithin_exhausted (n : Nat) : (runWithin n cfg name []).1 = .error .exhausted := by
  have hmarked : ((given cfg []).run ⟨cfg.number, 0⟩).1.1.mocks.resolve? name = none := by
    rw [← Option.isNone_iff_eq_none, ← Option.not_isSome, isSome_resolve?_given, hmock]
    rfl
  have hfunction : ((given cfg []).run ⟨cfg.number, 0⟩).1.1.module.functions.get? name = some f := hf
  have hargs : ((given cfg []).run ⟨cfg.number, 0⟩).1.2 = [] := rfl
  unfold runWithin
  generalize (given cfg []).run ⟨cfg.number, 0⟩ = g at hmarked hfunction hargs ⊢
  obtain ⟨⟨cfg, args⟩, supply⟩ := g
  obtain rfl : args = [] := hargs
  obtain ⟨s', hdefault⟩ := exists_run_outside_exhausted hmarked hfunction hparams n { supply }
  have hbind := run_bind_default (x := x) f.name .arity hdefault
  rw [← hparams] at hbind
  have hrun : (runFunction (machine cfg n) name []).run { supply } = (.error .exhausted, s') := by
    unfold runFunction
    rw [machine_module, show cfg.module.functions.get? name = some f from hfunction]
    exact run_bind_error hbind
  simp only [hrun]

end

end Casewise.Symbolic
