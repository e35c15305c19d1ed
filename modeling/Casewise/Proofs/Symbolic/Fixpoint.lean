import Casewise.Proofs.Symbolic.Assumptions
import Casewise.Proofs.Symbolic.Steady

/-!
The rounds that settle what a recursive call returns. Each round runs the body with an assumption about the call, and
the assumptions grow from round to round. The result of the last round is one that the call may assume of itself,
unless the call never met itself or the rounds ran out.
-/

namespace Casewise

theorem Env.same_self {env : Env} (h : env.All (Value.Meets Ty.Steady (fun _ => True) fun _ => True)) :
    env.same env = true := by
  induction env with
  | nil => rfl
  | cons b env ih =>
    obtain ⟨hb, he⟩ := List.forall_mem_cons.mp h
    have hv : b.2.same b.2 = true := by
      obtain ⟨name, v⟩ := b
      cases v with
      | type t => exact Ty.Steady.self hb
      | method receiver name target => simpa [Value.same] using Ty.Steady.self hb
      | _ => simp [Value.same]
    simp [same, hv, ih he]

namespace Symbolic

open Machine (Outcome)

variable {m : Machine} {cfg : Setting} {n : Nat} {body : List Stmt} {call : Call} {depth : Int} {s s' : Session}
  {o last : Outcome} {assumed : Ty}

structure Round where
  start : Session
  assumed : Ty
  frame : Frame
  stop : Session

namespace Round

def Runs (m : Machine) (body : List Stmt) (call : Call) (depth : Int) (r : Round) : Prop :=
  (do assume call r.assumed; m.runBody body call.env depth).run r.start = (.ok r.frame, r.stop)

def returned (r : Round) : Ty := .union r.frame.returns

def joined (r : Round) : Ty := .union [r.assumed, r.returned]

def outcome (r : Round) (t : Ty) : Outcome := ⟨t, r.frame.raises, !r.frame.returns.isEmpty⟩

def assuming (r : Round) (call : Call) (t : Ty) : Round := { r with assumed := t, stop := r.stop.assuming call t }

structure Steady (r : Round) : Prop where
  assumed : r.assumed.Steady
  returns : ∀ t ∈ r.frame.returns, t.Steady

variable {r : Round}

theorem Steady.joined (h : r.Steady) : r.joined.Steady := by
  refine Ty.closed_steady.union (List.forall_mem_cons.mpr ⟨h.assumed, ?_⟩)
  exact List.forall_mem_singleton.mpr (Ty.closed_steady.union h.returns)

theorem Steady.absorbed (h : r.Steady) {t : Ty} (ht : t ∈ r.assumed :: r.frame.returns) : t.AbsorbedBy r.joined :=
  h.assumed.absorbedBy_pair h.returns ht

end Round

theorem exists_round_of_settle {k : Nat}
    (h : (m.settle body call depth (k + 1) assumed last).run s = (.ok o, s')) :
    ∃ r : Round, r.Runs m body call depth ∧ r.start = s ∧ r.assumed = assumed ∧
      ((¬ r.stop.Met call ∧ o = r.outcome r.returned ∧ s' = r.stop) ∨
        (r.joined.same r.assumed = true ∧ o = r.outcome r.joined ∧ s' = r.stop) ∨
        (m.settle body call depth k r.joined (r.outcome r.joined)).run r.stop = (.ok o, s')) := by
  unfold Machine.settle at h
  rw [← bind_assoc] at h
  obtain ⟨frame, s₁, hruns, h⟩ := run_bind_eq_ok h
  have hread : (hasReentered call).run s₁ = (.ok (s₁.reentered.any (·.same call)), s₁) := rfl
  rw [run_bind_ok hread] at h
  refine ⟨⟨s, assumed, frame, s₁⟩, hruns, rfl, rfl, ?_⟩
  cases hmet : s₁.reentered.any (·.same call) with
  | false =>
    rw [hmet] at h
    obtain ⟨ho, rfl⟩ := Prod.mk.inj h
    refine .inl ⟨?_, (Except.ok.inj ho).symm, rfl⟩
    rintro ⟨c, hc, hcall⟩
    simp only [List.any_eq_false] at hmet
    exact hmet c hc hcall
  | true =>
    rw [hmet] at h
    simp only [if_true, Bool.not_true, Bool.false_or] at h
    split at h
    · next hsame =>
      obtain ⟨ho, rfl⟩ := Prod.mk.inj h
      exact .inr (.inl ⟨hsame, (Except.ok.inj ho).symm, rfl⟩)
    · exact .inr (.inr h)

theorem Round.Runs.steady {r : Round} (h : r.Runs (machine cfg n) body call depth)
    (hm : ∀ name v, cfg.mocks.resolve? name = some v → v.type.Steady)
    (hs : r.start.Keeps Ty.Steady) (ha : r.assumed.Steady)
    (he : call.env.All (Value.Meets Ty.Steady (fun _ => True) fun _ => True)) (hle : depth ≤ cfg.limits.depth) :
    r.Steady ∧ r.stop.Keeps Ty.Steady := by
  have hkeeps := (Setting.keeps_steady hm).invariant
  have hbody := (hkeeps.jumps n).body body (w := ()) trivial trivial hle he
  simp only [keeping_machine] at hbody
  have hround := (hkeeps.assume call ha).bind (fun _ _ => hbody) r.start hs
  rw [h] at hround
  exact ⟨⟨ha, hround.2 r.frame rfl⟩, hround.1⟩

/-- Rounds of a call from a session on. Each begins where the one before it ended and assumes what that one joined,
which is no less than it assumed itself. -/
structure Rounds (m : Machine) (body : List Stmt) (call : Call) (depth : Int) (s : Session) (assumed : Ty)
    (rounds : List Round) : Prop where
  runs : ∀ r ∈ rounds, r.Runs m body call depth
  first : ∃ r, rounds.head? = some r ∧ r.start = s ∧ r.assumed = assumed
  next : rounds.IsChain fun r r' => r'.start = r.stop ∧ r'.assumed = r.joined ∧ r.assumed.AbsorbedBy r'.assumed

theorem rounds_single {r : Round} (h : r.Runs m body call depth) : Rounds m body call depth r.start r.assumed [r] where
  runs := List.forall_mem_singleton.mpr h
  first := ⟨r, rfl, rfl, rfl⟩
  next := .singleton r

theorem Rounds.cons {r : Round} {rounds : List Round} (h : r.Runs m body call depth) (hr : r.Steady)
    (hrest : Rounds m body call depth r.stop r.joined rounds) :
    Rounds m body call depth r.start r.assumed (r :: rounds) where
  runs := List.forall_mem_cons.mpr ⟨h, hrest.runs⟩
  first := ⟨r, rfl, rfl, rfl⟩
  next := by
    obtain ⟨r', hr', hstart, hassumed⟩ := hrest.first
    cases rounds with
    | nil => cases hr'
    | cons r'' rounds =>
      obtain rfl : r'' = r' := Option.some.inj hr'
      exact .cons_cons ⟨hstart, hassumed, hassumed ▸ hr.absorbed (by simp)⟩ hrest.next

/-- How the last of so many rounds settles a call: the rounds ran out, or the assumption was not used, so that every
other would have done, or the result is what was assumed and all that was returned is in it. -/
def Round.Settles (m : Machine) (body : List Stmt) (call : Call) (depth : Int) (exhausted : Prop) (r : Round)
    (o : Outcome) : Prop :=
  (exhausted ∧ o = r.outcome .unknown) ∨
  (¬ r.stop.Met call ∧ (∀ t, (r.assuming call t).Runs m body call depth) ∧ o = r.outcome r.returned) ∨
  (r.assumed.same o.returns = true ∧ (∀ t ∈ r.frame.returns, t.AbsorbedBy o.returns) ∧ o = r.outcome r.joined)

section

variable (hm : ∀ name v, cfg.mocks.resolve? name = some v → v.type.Steady)
  (he : call.env.All (Value.Meets Ty.Steady (fun _ => True) fun _ => True)) (hle : depth ≤ cfg.limits.depth) {k : Nat}
  (hs : s.Keeps Ty.Steady) (ha : assumed.Steady)
  (h : ((machine cfg n).settle body call depth (k + 1) assumed last).run s = (.ok o, s'))

include hm he hle hs ha h

theorem exists_round_settles_or (hself : call.same call = true) :
    ∃ r : Round, r.Runs (machine cfg n) body call depth ∧ r.start = s ∧ r.assumed = assumed ∧ r.Steady ∧
      ((s' = r.stop ∧ ∀ exhausted, r.Settles (machine cfg n) body call depth exhausted o) ∨
        (r.stop.Keeps Ty.Steady ∧
          ((machine cfg n).settle body call depth k r.joined (r.outcome r.joined)).run r.stop = (.ok o, s'))) := by
  obtain ⟨r, hr, rfl, rfl, hcase⟩ := exists_round_of_settle h
  obtain ⟨hsteady, hstop⟩ := hr.steady hm hs ha he hle
  refine ⟨r, hr, rfl, rfl, hsteady, ?_⟩
  rcases hcase with ⟨hmet, ho, hend⟩ | ⟨hsame, ho, hend⟩ | hnext
  · exact .inl ⟨hend, fun _ => .inr (.inl ⟨hmet, run_runBody_assuming hself hr hmet, ho⟩)⟩
  · refine .inl ⟨hend, fun _ => .inr (.inr ⟨?_, fun t ht => ?_, ho⟩)⟩
    · rw [ho]
      exact Ty.same_symm hsame
    · rw [ho]
      exact hsteady.absorbed (List.mem_cons_of_mem _ ht)
  · exact .inr ⟨hstop, hnext⟩

theorem exists_rounds_of_settle (hself : call.same call = true) :
    ∃ rounds r, Rounds (machine cfg n) body call depth s assumed rounds ∧ rounds.length ≤ k + 1 ∧
      rounds.getLast? = some r ∧ s' = r.stop ∧
      r.Settles (machine cfg n) body call depth (rounds.length = k + 1) o := by
  induction k generalizing s assumed last with
  | zero =>
    obtain ⟨r, hr, rfl, rfl, -, hcase⟩ := exists_round_settles_or hm he hle hs ha h hself
    refine ⟨[r], r, rounds_single hr, by simp, rfl, ?_⟩
    rcases hcase with ⟨hend, hsettles⟩ | ⟨-, hnext⟩
    · exact ⟨hend, hsettles _⟩
    · obtain ⟨ho, hend⟩ := Prod.mk.inj hnext
      exact ⟨hend.symm, .inl ⟨rfl, (Except.ok.inj ho).symm⟩⟩
  | succ k ih =>
    obtain ⟨r, hr, rfl, rfl, hsteady, hcase⟩ := exists_round_settles_or hm he hle hs ha h hself
    rcases hcase with ⟨hend, hsettles⟩ | ⟨hstop, hnext⟩
    · exact ⟨[r], r, rounds_single hr, by simp, rfl, hend, hsettles _⟩
    · obtain ⟨rounds, r', hrounds, hlength, hlast, hend, hsettles⟩ := ih hstop hsteady.joined hnext
      refine ⟨r :: rounds, r', hrounds.cons hr hsteady, by simpa using hlength, ?_, hend, ?_⟩
      · rw [List.getLast?_cons, hlast]
        rfl
      · simpa using hsettles

end

theorem run_callFunction_eq_ok {f : FunctionDef Stmt} {env : Env} (idle : ¬ s.Runs ⟨f.name, env⟩)
    (shallow : depth ≤ cfg.limits.depth) (h : ((machine cfg n).callFunction f env depth).run s = (.ok o, s')) :
    ∃ s₁, 0 < cfg.limits.rounds ∧
      ((machine cfg n).settle f.body ⟨f.name, env⟩ depth cfg.limits.rounds.toNat .never ⟨.unknown, [], true⟩).run s =
        (.ok o, s₁) ∧ s' = { s₁ with running := s₁.running.tail } := by
  have hread : (assumed? ⟨f.name, env⟩).run s = (.ok none, s) := by
    show (Except.ok ((s.running.find? (·.1.same ⟨f.name, env⟩)).map (·.2)), s) = _
    rw [List.find?_eq_none.mpr fun r hr hsame => idle ⟨r, hr, hsame⟩]
    rfl
  unfold Machine.callFunction at h
  rw [run_bind_ok hread] at h
  simp only [machine_setting, if_neg (Int.not_lt.mpr shallow)] at h
  split at h
  · exact absurd (congrArg Prod.fst h) nofun
  · next hrounds =>
    obtain ⟨o', s₁, hsettle, h⟩ := run_bind_eq_ok h
    obtain ⟨ho, hend⟩ := Prod.mk.inj h
    exact ⟨s₁, Int.not_le.mp hrounds, Except.ok.inj ho ▸ hsettle, hend.symm⟩

/-- A call of a function of the program that is neither in progress nor too deep settles in rounds, of which there are
no more than the setting allows. It first assumes that it never returns, and from one round to the next it assumes no
less. The types in the session equal themselves, as those of every run do. -/
theorem call_settles_in_rounds (cfg : Setting) (n : Nat) (f : FunctionDef Stmt) (env : Env) (depth : Int)
    (s s' : Session) (o : Outcome) (mocks : ∀ name v, cfg.mocks.resolve? name = some v → v.type.Steady)
    (session : s.Keeps Ty.Steady) (args : env.All (Value.Meets Ty.Steady (fun _ => True) fun _ => True))
    (idle : ¬ s.Runs ⟨f.name, env⟩) (shallow : depth ≤ cfg.limits.depth)
    (returns : ((machine cfg n).callFunction f env depth).run s = (.ok o, s')) :
    ∃ rounds r, Rounds (machine cfg n) f.body ⟨f.name, env⟩ depth s .never rounds ∧
      (rounds.length : Int) ≤ cfg.limits.rounds ∧ rounds.getLast? = some r ∧
      s' = { r.stop with running := r.stop.running.tail } ∧
      r.Settles (machine cfg n) f.body ⟨f.name, env⟩ depth (rounds.length = cfg.limits.rounds) o := by
  obtain ⟨s₁, hrounds, hsettle, hend⟩ := run_callFunction_eq_ok idle shallow returns
  obtain ⟨k, hk⟩ : ∃ k, cfg.limits.rounds.toNat = k + 1 := ⟨cfg.limits.rounds.toNat - 1, by omega⟩
  have hself : Call.same ⟨f.name, env⟩ ⟨f.name, env⟩ = true := by simp [Call.same, Env.same_self args]
  rw [hk] at hsettle
  obtain ⟨rounds, r, hall, hlength, hlast, rfl, hsettles⟩ :=
    exists_rounds_of_settle mocks args shallow session Ty.closed_steady.never hsettle hself
  refine ⟨rounds, r, hall, by omega, hlast, hend, hsettles.imp_left (And.imp_left fun h => by omega)⟩

def factorial : Setting where
  module := { file := "factorial", functions := [("fact", fact)] }
  mocks := []
where
  n : Expr := .name default "n"
  one : Expr := .constant default (.scalar (.int 1))
  fact : FunctionDef Stmt := ⟨default, "fact", { ordinary := ["n"] },
    [.branch default (.comparison default n [(.le, one)]) [.returns default (some one)] [],
      .returns default (some (.binary default .mul n
        (.call default (.name default "fact") [.binary default .sub n one] [])))], [], []⟩

theorem factorial_settles_in_rounds :
    ∃ o s', ((machine factorial 2).callFunction factorial.fact [("n", .type .number)] 0).run {} = (.ok o, s') ∧
      o.returns = .number ∧
      ∃ rounds r, Rounds (machine factorial 2) factorial.fact.body ⟨"fact", [("n", .type .number)]⟩ 0 {} .never rounds ∧
        (rounds.length : Int) ≤ 8 ∧ rounds.getLast? = some r ∧ s' = { r.stop with running := r.stop.running.tail } ∧
        r.Settles (machine factorial 2) factorial.fact.body ⟨"fact", [("n", .type .number)]⟩ 0
          (rounds.length = (8 : Int)) o := by
  obtain ⟨o, s', hrun, hreturns⟩ : ∃ o s',
      ((machine factorial 2).callFunction factorial.fact [("n", .type .number)] 0).run {} = (.ok o, s') ∧
        o.returns = .number := by
    have hnumber : (((machine factorial 2).callFunction factorial.fact [("n", .type .number)] 0).run
        {}).1.toOption.any (·.returns.isPrimitive .number) = true := by decide +kernel
    rcases hr : ((machine factorial 2).callFunction factorial.fact [("n", .type .number)] 0).run {} with ⟨stop | o, s'⟩
    · rw [hr] at hnumber
      cases hnumber
    · rw [hr] at hnumber
      exact ⟨o, s', rfl, Ty.isPrimitive_iff.mp hnumber⟩
  have hmocks (name : String) (v : CaseValue) (hv : factorial.mocks.resolve? name = some v) : v.type.Steady := by
    rw [show factorial.mocks = [] from rfl, MockChain.resolve?_nil] at hv
    cases hv
  have hsession : ({} : Session).Keeps Ty.Steady := by constructor <;> simp
  have hargs : Env.All (Value.Meets Ty.Steady (fun _ => True) fun _ => True) [("n", .type .number)] :=
    List.forall_mem_singleton.mpr (Ty.closed_steady.primitive _)
  have hidle : ¬ ({} : Session).Runs ⟨"fact", [("n", .type .number)]⟩ := by simp [Session.Runs]
  exact ⟨o, s', hrun, hreturns,
    call_settles_in_rounds factorial 2 factorial.fact [("n", .type .number)] 0 {} s' o hmocks hsession hargs hidle
      (by decide) hrun⟩

end Symbolic

end Casewise
