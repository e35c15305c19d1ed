import Casewise.Proofs.Failing
import Casewise.Symbolic.Run

namespace Casewise.Symbolic

variable {α : Type} {stop : Stop}

def Stop.placed (span : Span) : Stop → Stop
  | .undefined cause none => .undefined cause (some span)
  | stop => stop

theorem run_located (module : Module) (pos : Extent) (x : Run α) (s : Session) :
    (located module pos x).run s = ((x.run s).1.mapError (Stop.placed (module.span pos)), (x.run s).2) := by
  rcases hx : x.run s with ⟨stop | a, s'⟩
  · refine (run_tryCatch_error hx).trans ?_
    cases stop with
    | undefined cause span => cases span <;> rfl
    | _ => rfl
  · exact run_tryCatch_ok hx

theorem run_located_eq_ok {module : Module} {pos : Extent} {x : Run α} {s s' : Session} {a : α}
    (h : (located module pos x).run s = (.ok a, s')) : x.run s = (.ok a, s') := by
  rw [run_located] at h
  rcases hx : x.run s with ⟨stop | b, s₁⟩
  · rw [hx] at h
    cases h
  · rw [hx] at h
    exact h

theorem run_liftFault_eq_ok {x : Except Fault α} {a : α} {s s' : Session}
    (h : (liftFault x).run s = (.ok a, s')) :
    x = .ok a ∧ s' = s := by
  cases x with
  | ok b =>
    cases h
    exact ⟨rfl, rfl⟩
  | error e => cases e <;> cases h

def endedPath : Except Stop Flow → Except Stop Flow
  | .error .unreachable => .ok .left
  | r => r

theorem run_endingPath (x : Run Flow) (s : Session) :
    (endingPath x).run s = (endedPath (x.run s).1, (x.run s).2) := by
  rcases hx : x.run s with ⟨stop | flow, s'⟩
  · refine (run_tryCatch_error hx).trans ?_
    cases stop <;> rfl
  · exact run_tryCatch_ok hx

theorem placed_ne_exhausted {span : Span} (h : stop ≠ .exhausted) : stop.placed span ≠ .exhausted := by
  cases stop with
  | undefined cause place => cases place <;> exact Stop.noConfusion
  | _ => exact h

def Continues : Except Stop α → Prop
  | .ok _ => True
  | .error stop => stop = .unreachable

theorem continues_of_mapError {r : Except Stop α} {span : Span} (h : Continues (r.mapError (Stop.placed span))) :
    Continues r := by
  cases r with
  | ok a => trivial
  | error stop =>
    cases stop with
    | undefined cause place => cases place <;> cases h
    | _ => exact h

theorem of_mapError_eq_ok {r : Except Stop α} {span : Span} {b : α} {P : α → Prop}
    (h : r.mapError (Stop.placed span) = .ok b) (hP : ∀ a, r = .ok a → P a) : P b := by
  cases r with
  | error stop => cases h
  | ok a => exact Except.ok.inj h ▸ hP a rfl

theorem continues_of_endedPath {r : Except Stop Flow} (h : Continues (endedPath r)) : Continues r := by
  cases r with
  | ok a => trivial
  | error stop =>
    cases stop with
    | unreachable => rfl
    | _ => cases h

theorem run_changeFrame (f : Frame → Frame) (s : Session) :
    (changeFrame f).run s = (.ok (), { s with frames := s.frames.modifyHead f }) := by
  rcases s with ⟨scopes, closures, _ | ⟨x, rest⟩, running, reentered, constants, diagnostics, supply, asked⟩ <;> rfl

theorem run_nextDepth (s : Session) : nextDepth.run s = (.ok ((s.frames.head?.map (·.depth + 1)).getD 0), s) := by
  rcases s with ⟨scopes, closures, _ | ⟨x, rest⟩, running, reentered, constants, diagnostics, supply, asked⟩ <;> rfl

theorem run_ask (written path : String) (s : Session) :
    (ask written path).run s = (.ok (), { s with asked := (written, path) :: s.asked }) := rfl

theorem run_reportOnce (d : Diagnostic) (covers : Diagnostic → Bool) (s : Session) :
    (reportOnce d covers).run s =
      (.ok (), { s with diagnostics := if s.diagnostics.any covers then s.diagnostics else s.diagnostics ++ [d] }) := by
  show (Except.ok (), if s.diagnostics.any covers then s else _) = _
  split <;> rfl

def Machine.inFrame (m : Machine) (body : List Stmt) (scope : Nat) : Run Unit := do
  let flow ← m.execute body scope
  if flow.next.isSome then recordReturn .null

theorem runBody_eq (m : Machine) (body : List Stmt) (env : Env) (depth : Int) :
    m.runBody body env depth = (do
      let scope ← newScope env
      pushFrame depth
      m.inFrame body scope
      popFrame) := by
  unfold Machine.runBody Machine.inFrame
  refine congrArg _ (funext fun scope => congrArg _ (funext fun _ => ?_))
  rw [bind_assoc]
  refine congrArg _ (funext fun flow => ?_)
  split <;> simp

theorem run_eval_name (m : Machine) (p : Extent) {x : String} {scope : Nat} {s : Session} {env : Env} {v : Value}
    (hs : s.scopes[scope]? = some env) (hx : env.get? x = some v) : (m.eval (.name p x) scope).run s = (.ok v, s) := by
  have henv : (envOf scope).run s = (.ok env, s) := congrArg (fun e : Option Env => (Except.ok (e.getD []), s)) hs
  have hlookup : (m.lookup x scope).run s = (.ok v, s) := by
    unfold Machine.lookup
    rw [run_bind_ok henv, hx]
    rfl
  show (located _ _ (m.lookup x scope)).run s = _
  rw [run_located, hlookup]
  rfl

theorem machine_setting (cfg : Setting) (n : Nat) : (machine cfg n).setting = cfg := by
  cases n <;> rfl

theorem machine_module (cfg : Setting) (n : Nat) : (machine cfg n).module = cfg.module := by
  cases n <;> rfl

@[simp] theorem machine_eta (cfg : Setting) (n : Nat) :
    Machine.mk cfg (machine cfg n).evaluate (machine cfg n).execute = machine cfg n := by
  cases n <;> rfl

theorem endingPath_ne_unreachable (act : Run Flow) (s : Session) :
    ((endingPath act).run s).1 ≠ .error .unreachable := by
  rw [run_endingPath]
  generalize (act.run s).1 = r
  cases r with
  | ok flow => exact nofun
  | error stop => cases stop <;> exact nofun

theorem execBlock_ne_unreachable (m : Machine) (ss : List Stmt) (scope : Nat) (s : Session) :
    ((m.execBlock ss scope).run s).1 ≠ .error .unreachable := by
  induction ss generalizing scope s with
  | nil => exact nofun
  | cons st rest ih =>
    refine run_bind_ne_error (endingPath_ne_unreachable _) (fun flow s => ?_) s
    split
    · exact nofun
    · exact run_bind_ne_error (ih _) (fun _ _ h => by cases h) s

theorem execute_ne_unreachable (cfg : Setting) (n : Nat) (body : List Stmt) (scope : Nat) (s : Session) :
    (((machine cfg n).execute body scope).run s).1 ≠ .error .unreachable := by
  cases n with
  | zero => exact nofun
  | succ n => exact execBlock_ne_unreachable (machine cfg n) body scope s

theorem inFrame_ne_unreachable (cfg : Setting) (n : Nat) (body : List Stmt) (scope : Nat) (s : Session) :
    (((machine cfg n).inFrame body scope).run s).1 ≠ .error .unreachable := by
  refine run_bind_ne_error (execute_ne_unreachable cfg n body scope) (fun flow s => ?_) s
  split
  · rw [recordReturn, run_changeFrame]
    exact nofun
  · exact nofun

end Casewise.Symbolic
