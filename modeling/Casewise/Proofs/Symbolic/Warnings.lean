import Casewise.Proofs.Symbolic.Invariant
import Casewise.Proofs.Symbolic.Termination

namespace Casewise.Symbolic

variable {cfg : Setting} {asked : List (String × String)} {ds : List Diagnostic} {d : Diagnostic}
  {written path : String}

def isUnmocked (written : String) (d : Diagnostic) : Bool :=
  d.code == "W300" && d.message == "unmocked external symbol '" ++ written ++ "'"

def isUnmet (cfg : Setting) (asked : List (String × String)) (written : String) : Bool :=
  asked.any fun a => a.1 == written && (mocked? cfg a.1 a.2).isNone

def isRepeated (d e : Diagnostic) : Bool :=
  d.code == e.code && d.message == e.message && d.span.startLine == e.span.startLine && d.span.startCol == e.span.startCol

structure Warned (cfg : Setting) (asked : List (String × String)) (ds : List Diagnostic) : Prop where
  once : ∀ written, ds.countP (isUnmocked written) = if isUnmet cfg asked written then 1 else 0
  named : ∀ d ∈ ds, d.code = "W300" → ∃ written, isUnmocked written d = true
  apart : ds.Pairwise fun d e => d.code = "W310" → isRepeated d e = false

theorem code_of_isUnmocked (h : isUnmocked written d = true) : d.code = "W300" := by
  simp only [isUnmocked, Bool.and_eq_true, beq_iff_eq] at h
  exact h.1

theorem eq_of_isUnmocked {other : String} (h : isUnmocked written d = true) (h' : isUnmocked other d = true) :
    other = written := by
  simp only [isUnmocked, Bool.and_eq_true, beq_iff_eq] at h h'
  have hm := h'.2.symm.trans h.2
  rwa [String.append_left_inj, String.append_right_inj] at hm

theorem isUnmet_cons_of_mocked {v : CaseValue} (h : mocked? cfg written path = some v) (other : String) :
    isUnmet cfg ((written, path) :: asked) other = isUnmet cfg asked other := by
  simp [isUnmet, h]

theorem isUnmet_cons_of_unmocked (h : mocked? cfg written path = none) (other : String) :
    isUnmet cfg ((written, path) :: asked) other = (written == other || isUnmet cfg asked other) := by
  simp [isUnmet, h]

namespace Warned

theorem nil (cfg : Setting) : Warned cfg [] [] where
  once _ := rfl
  named := by simp
  apart := List.Pairwise.nil

variable (h : Warned cfg asked ds)

include h

theorem any_isUnmocked (written : String) : ds.any (isUnmocked written) = isUnmet cfg asked written := by
  have hcount := h.once written
  cases hu : isUnmet cfg asked written with
  | true =>
    rw [hu, if_pos rfl] at hcount
    rw [List.any_eq_true]
    exact List.countP_pos_iff.mp (by omega)
  | false =>
    rw [hu] at hcount
    rw [List.any_eq_false]
    exact List.countP_eq_zero.mp hcount

theorem congr {cfg' : Setting} {asked' : List (String × String)}
    (hu : ∀ written, isUnmet cfg' asked' written = isUnmet cfg asked written) : Warned cfg' asked' ds :=
  { h with once := fun written => (h.once written).trans (by rw [hu]) }

theorem append {asked' : List (String × String)}
    (hu : ∀ written, ((if isUnmet cfg asked written then 1 else 0) + if isUnmocked written d then 1 else 0) =
      if isUnmet cfg asked' written then 1 else 0)
    (hnamed : d.code = "W300" → ∃ written, isUnmocked written d = true)
    (hapart : ∀ e ∈ ds, e.code = "W310" → isRepeated e d = false) : Warned cfg asked' (ds ++ [d]) where
  once written := by
    rw [List.countP_append, h.once, List.countP_singleton]
    exact hu written
  named e he := by
    rcases List.mem_append.mp he with he | he
    · exact h.named e he
    · exact List.mem_singleton.mp he ▸ hnamed
  apart := by
    refine List.pairwise_append.mpr ⟨h.apart, List.pairwise_singleton _ d, fun e he x hx => ?_⟩
    exact List.mem_singleton.mp hx ▸ hapart e he

theorem ask_mocked {v : CaseValue} (hv : mocked? cfg written path = some v) : Warned cfg ((written, path) :: asked) ds :=
  h.congr (isUnmet_cons_of_mocked hv)

theorem ask_unmocked (hv : mocked? cfg written path = none) (hd : isUnmocked written d = true) :
    Warned cfg ((written, path) :: asked) (if ds.any (isUnmocked written) then ds else ds ++ [d]) := by
  by_cases hany : ds.any (isUnmocked written) = true
  · rw [if_pos hany]
    apply h.congr
    intro other
    rw [isUnmet_cons_of_unmocked hv]
    by_cases ho : written = other
    · subst ho
      rw [← h.any_isUnmocked, hany, Bool.or_true]
    · simp [ho]
  · rw [if_neg hany]
    apply h.append
    · intro other
      rw [isUnmet_cons_of_unmocked hv]
      by_cases ho : written = other
      · subst ho
        rw [h.any_isUnmocked] at hany
        simp [hany, hd]
      · have hnot : ¬ isUnmocked other d = true := fun h' => ho (eq_of_isUnmocked hd h').symm
        simp [ho, hnot]
    · intro _
      exact ⟨written, hd⟩
    · intro e _ he
      simp [isRepeated, he, code_of_isUnmocked hd]

theorem report_missing (hd : d.code = "W310") :
    Warned cfg asked (if ds.any (fun e => isRepeated e d) then ds else ds ++ [d]) := by
  by_cases hany : ds.any (fun e => isRepeated e d) = true
  · rwa [if_pos hany]
  · rw [if_neg hany]
    apply h.append
    · intro written
      simp [isUnmocked, hd]
    · intro hc
      simp [hd] at hc
    · intro e he _
      rw [Bool.not_eq_true, List.any_eq_false] at hany
      exact Bool.eq_false_iff.mpr (hany e he)

end Warned

structure Setting.Reports (cfg : Setting) (R : List (String × String) → List Diagnostic → Prop) : Prop where
  askMocked : ∀ {asked ds written path v}, mocked? cfg written path = some v → R asked ds →
    R ((written, path) :: asked) ds
  askUnmocked : ∀ {asked ds written path d}, mocked? cfg written path = none → isUnmocked written d = true →
    R asked ds → R ((written, path) :: asked) (if ds.any (isUnmocked written) then ds else ds ++ [d])
  reportMissing : ∀ {asked ds d}, d.code = "W310" → R asked ds →
    R asked (if ds.any (fun e => isRepeated e d) then ds else ds ++ [d])

theorem Setting.Reports.invariant {R : List (String × String) → List Diagnostic → Prop} (h : cfg.Reports R) :
    cfg.Invariant (fun s => R s.asked s.diagnostics) (fun _ => True) fun _ => True where
  closed := Ty.permissive_true.toClosed
  raw := Ty.permissive_true
  raw_of_holds := id
  mocks _ := trivial
  marked _ := preserves_modifyGet (fun _ hs => hs) fun _ _ => trivial
  newScope _ := preserves_modifyGet (fun _ hs => hs) fun _ _ => trivial
  envOf _ := preserves_read fun _ _ _ _ => Value.meets_true _
  changeEnv _ _ _ := preserves_modify fun _ hs => hs
  newClosure _ := preserves_modifyGet (fun _ hs => hs) fun _ _ => trivial
  constant? _ := preserves_read fun _ _ _ _ => trivial
  setConstant _ _ := preserves_modify fun _ hs => hs
  changeFrame _ s hs := by
    rw [run_changeFrame]
    exact ⟨hs, fun _ _ => trivial⟩
  recordReturn _ s hs := by
    rw [recordReturn, run_changeFrame]
    exact ⟨hs, fun _ _ => trivial⟩
  pushFrame _ := preserves_modify fun _ hs => hs
  popFrame s hs := by
    refine ⟨?_, fun _ _ _ _ => trivial⟩
    rcases s with ⟨_, _, _ | ⟨x, rest⟩, _, _, _, _, _, _⟩ <;> exact hs
  assumed? _ := preserves_read fun _ _ _ _ => trivial
  reenter _ := preserves_modify fun _ hs => hs
  assume _ _ := preserves_modify fun _ hs => hs
  finish := preserves_modify fun _ hs => hs
  askMocked hv := preserves_modify fun _ hs => h.askMocked hv hs
  askUnmocked {written path} pos hv s hs := by
    refine ⟨?_, fun _ _ => trivial⟩
    rw [run_bind_ok (run_ask written path s), warnUnmocked, run_reportOnce]
    exact h.askUnmocked hv (by simp [isUnmocked, Diagnostic.warning]) hs
  reportMissing field name pos s hs := by
    refine ⟨?_, fun _ _ => trivial⟩
    rw [Symbolic.reportMissing, run_reportOnce]
    exact h.reportMissing (d := { Diagnostic.warning "W310" ("missing field '" ++ field ++ "' on " ++ name)
      (cfg.module.span pos) with caseLabel := cfg.label }) rfl hs

theorem Setting.reports_warned (cfg : Setting) : cfg.Reports (Warned cfg) where
  askMocked hv h := h.ask_mocked hv
  askUnmocked hv hd h := h.ask_unmocked hv hd
  reportMissing hd h := h.report_missing hd

theorem Setting.reports_asked (cfg : Setting) (before : List (String × String)) :
    cfg.Reports fun asked _ => before <:+ asked where
  askMocked _ h := h.trans (List.suffix_cons _ _)
  askUnmocked _ _ h := h.trans (List.suffix_cons _ _)
  reportMissing _ h := h

theorem isNone_mocked?_given (cfg : Setting) (args : List Ty) (supply : Mark) (written path : String) :
    (mocked? ((given cfg args).run supply).1.1 written path).isNone = (mocked? cfg written path).isNone := by
  simp only [mocked?, ← Option.not_isSome, Option.isSome_or, isSome_resolve?_given]

def sessionWithin (jumps : Nat) (cfg : Setting) (name : String) (args : List Ty) : Session :=
  let ((cfg, args), supply) := (given cfg args).run ⟨cfg.number, 0⟩
  ((runFunction (machine cfg jumps) name args).run { supply }).2

theorem warned_sessionWithin (jumps : Nat) (cfg : Setting) (name : String) (args : List Ty) :
    Warned cfg (sessionWithin jumps cfg name args).asked (sessionWithin jumps cfg name args).diagnostics := by
  have hmocked := isNone_mocked?_given cfg args ⟨cfg.number, 0⟩
  unfold sessionWithin
  generalize (given cfg args).run ⟨cfg.number, 0⟩ = g at hmocked ⊢
  obtain ⟨⟨marked, args⟩, supply⟩ := g
  have hargs : ∀ t ∈ args, True := fun _ _ => trivial
  have hrun := (marked.reports_warned.invariant.runFunction jumps name hargs { supply } (Warned.nil marked)).1
  refine Warned.congr hrun fun written => ?_
  simp only [isUnmet, hmocked]

theorem asked_force (cfg : Setting) (written path : String) (pos : Extent) (s : Session) :
    ((force cfg (.external written path) pos).run s).2.asked = (written, path) :: s.asked := by
  unfold force
  rw [run_bind_ok (run_ask written path s)]
  cases mocked? cfg written path with
  | some v => rfl
  | none =>
    dsimp only [warnUnmocked]
    rw [run_bind_ok (run_reportOnce _ _ _)]
    rfl

theorem asked_call (m : Machine) (written path : String) (args : List Value) (keywords : Env) (loose : Bool)
    (pos : Extent) (scope : Nat) (s : Session) :
    ((m.call (.external written path) args keywords loose pos scope).run s).2.asked = (written, path) :: s.asked := by
  unfold Machine.call
  dsimp only
  rw [run_bind_ok (run_ask written path s)]
  cases mocked? m.setting written path with
  | some v =>
    dsimp only
    split <;> rfl
  | none =>
    dsimp only [warnUnmocked]
    rw [run_bind_ok (run_reportOnce _ _ _)]
    rfl

/-- Every run, however it ends, has warned exactly once about each name that it asked for while nothing stood in for the
symbol, has warned about no other name, and has reported no missing field twice for one place. What it asked for are the
external symbols that it forced or called, none of which is forgotten. -/
theorem warnings_match_asked (jumps : Nat) (cfg : Setting) (name : String) (args : List Ty) :
    Warned cfg (sessionWithin jumps cfg name args).asked (runWithin jumps cfg name args).2 ∧
    (∀ written path pos s, ((force cfg (.external written path) pos).run s).2.asked = (written, path) :: s.asked) ∧
    (∀ written path args keywords loose pos scope s,
      (((machine cfg jumps).call (.external written path) args keywords loose pos scope).run s).2.asked =
        (written, path) :: s.asked) ∧
    (∀ e scope s, s.asked <:+ (((machine cfg jumps).eval e scope).run s).2.asked) ∧
    (∀ body scope s, s.asked <:+ (((machine cfg jumps).execBlock body scope).run s).2.asked) := by
  refine ⟨warned_sessionWithin jumps cfg name args, ?_, ?_, ?_, ?_⟩
  · exact asked_force cfg
  · exact asked_call (machine cfg jumps)
  · intro e scope s
    have hi := (cfg.reports_asked s.asked).invariant
    exact (hi.eval (hi.jumps jumps) e scope s (List.suffix_refl _)).1
  · intro body scope s
    have hi := (cfg.reports_asked s.asked).invariant
    exact (hi.execBlock (hi.jumps jumps) body scope s (List.suffix_refl _)).1

def bells : Setting where
  module := { file := "bells", functions := [("ring", ring)], imports := [("tower", "town.tower")] }
  mocks := [[("now", .concrete (.int 12))]]
where
  called (e : Expr) : Stmt := .expr default (.call default e [] [])
  chime : Expr := .member default (.name default "tower") "chime"
  ring : FunctionDef Stmt :=
    ⟨default, "ring", {}, [called chime, called (.name default "now"), called chime,
      called (.constant default (.scalar (.int 1)))], [], []⟩

-- the run fails, after one warning
example : (runWithin 1 bells "ring" []).1.isOk = false ∧
    (sessionWithin 1 bells "ring" []).asked =
      [("tower.chime", "town.tower.chime"), ("now", "now"), ("tower.chime", "town.tower.chime")] ∧
    (runWithin 1 bells "ring" []).2.map (·.message) = ["unmocked external symbol 'tower.chime'"] := by
  decide +kernel

end Casewise.Symbolic
