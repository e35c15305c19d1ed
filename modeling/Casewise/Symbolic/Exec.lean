import Casewise.Symbolic.Eval
import Casewise.Symbolic.Pattern

/-!
Statements on types. Branches fork the environment and meet again by union; the body of a loop runs once,
and what it changed is widened.
-/

namespace Casewise

def Expr.exceptionName? : Expr → Option String
  | .call _ f _ _ => exceptionName? f
  | .name _ id => some id
  | .member _ _ attr => some attr
  | .tuple _ (e :: _) => exceptionName? e
  | _ => none

namespace Symbolic

def exceptionName (e : Option Expr) : String := (e.bind Expr.exceptionName?).getD "Exception"

namespace Flow

def left : Flow := ⟨none, [], []⟩

def atEnd (scope : Nat) : Flow := ⟨some scope, [], []⟩

def andThen (a b : Flow) : Flow := ⟨b.next, a.breaks ++ b.breaks, a.continues ++ b.continues⟩

end Flow

def join (flows : List Flow) : Run Flow := do
  let breaks := flows.flatMap (·.breaks)
  let continues := flows.flatMap (·.continues)
  match flows.filterMap (·.next) with
  | [] => return ⟨none, breaks, continues⟩
  | scopes =>
    let envs ← scopes.mapM envOf
    return ⟨some (← newScope (Env.merge envs)), breaks, continues⟩

def endingPath (act : Run Flow) : Run Flow :=
  tryCatch act fun
    | .unreachable => return .left
    | stop => throw stop

def guarded (handlers : Bool) (act : Run Flow) : Run Flow := do
  if handlers then
    changeFrame fun f => { f with guards := f.guards + 1 }
    let flow ← act
    changeFrame fun f => { f with guards := f.guards - 1 }
    return flow
  else act

def scopeOr (env : Env) : Option Nat → Run Nat
  | some scope => return scope
  | none => newScope env

def handlerEnv (name : Option String) (entry : Env) : Env :=
  match name with
  | some n => entry.set n .unknown
  | none => entry

def Flow.rounds (body : Flow) : List Nat := body.next.toList ++ body.continues

def leaving (before : Env) (breaks : List Nat) : Run (List Flow) :=
  breaks.mapM fun b => do return .atEnd (← newScope (Env.widenChanged before (← envOf b)))

def pairwise? (target value : Expr) : Option (List Expr × List Expr) :=
  match display? target, display? value with
  | some ts, some vs =>
    if ts.length == vs.length && !(ts ++ vs).any Expr.isStarred then some (ts, vs) else none
  | _, _ => none
where
  display? : Expr → Option (List Expr)
    | .tuple _ es => some es
    | .list _ es => some es
    | _ => none

def deleteName (scope : Nat) (target : Expr) : Run Unit :=
  match target.id? with
  | some n => changeEnv scope (·.erase n)
  | none => return ()

namespace Machine

def assignAll (m : Machine) (targets : List Expr) (value : Expr) (scope : Nat) : Run Unit := do
  match targets.findSome? (pairwise? · value) with
  | some (ts, vs) =>
    let values ← vs.mapM fun v => m.eval v scope
    (ts.zip values).forM fun (t, v) => m.assign t v scope
  | none =>
    let v ← m.eval value scope
    targets.forM fun t => m.assign t v scope

def branches (m : Machine) (test : Expr) (scope : Nat) : Run (Option Bool × Narrowed) := do
  let truth := (← m.forced (m.eval test scope) test.pos).truth?
  return (truth, (← narrowed test scope).given truth)

mutual

def exec (m : Machine) (s : Stmt) (scope : Nat) : Run Flow := do
  match s with
  | .returns _ none =>
    recordReturn .null
    return .left
  | .returns _ (some e) =>
    recordReturn (← m.forced (m.eval e scope) e.pos)
    return .left
  | .assign _ targets value =>
    m.assignAll targets value scope
    return .atEnd scope
  | .augmented p target op value =>
    let current ← m.forced (m.eval target scope) target.pos
    let operand ← m.forced (m.eval value scope) value.pos
    let result ← located m.module p (computed (Ty.binary op current operand))
    m.assign target (.type result) scope
    return .atEnd scope
  | .annotated _ _ _ none => return .atEnd scope
  | .annotated _ target _ (some value) =>
    let v ← m.eval value scope
    m.assign target v scope
    return .atEnd scope
  | .expr _ e =>
    let _ ← m.eval e scope
    return .atEnd scope
  | .branch _ test body otherwise =>
    let (_, ends) ← m.branches test scope
    let whenTrue ← inScope? ends.whenTrue (m.execBlock body)
    let whenFalse ← inScope? ends.whenFalse (m.execBlock otherwise)
    join (whenTrue.toList ++ whenFalse.toList)
  | .forLoop _ target source body otherwise =>
    let item ← liftFault (← m.forced (m.eval source scope) source.pos).itemsOf
    let before ← envOf scope
    let start ← copyScope scope
    let round := (← inScope? (if item.isNever then none else some before) fun inner => do
      m.assign target (.type item.widen) inner
      m.execBlock body inner).getD .left
    -- There may be no round at all, so what was before the loop meets what its rounds leave.
    let last ← newScope (Env.widenChanged before (Env.merge (← (start :: round.rounds).mapM envOf)))
    let ended ← m.execBlock otherwise last
    join (ended :: (← leaving before round.breaks))
  | .whileLoop _ test body otherwise =>
    let (truth, ends) ← m.branches test scope
    let before ← envOf scope
    let round := (← inScope? ends.whenTrue (m.execBlock body)).getD .left
    -- A test that always holds lets the loop end by a break only.
    let rounds ← (if truth == some true then [] else round.rounds).mapM envOf
    match ends.whenFalse.toList ++ rounds with
    | [] => join (← leaving before round.breaks)
    | envs =>
      let last ← newScope (Env.widenChanged before (Env.merge envs))
      let ended ← m.execBlock otherwise last
      join (ended :: (← leaving before round.breaks))
  | .raising _ none _ =>
    recordRaise ((← handled?).getD "Exception")
    return .left
  | .raising _ (some e) _ =>
    recordRaise (exceptionName (some e))
    return .left
  | .trying _ body handlers otherwise final =>
    let inner ← copyScope scope
    let tried ← guarded (!handlers.isEmpty) (m.execBlock body inner)
    let unhandled ← tried.next.toList.mapM fun next => m.execBlock otherwise next
    -- A handler may start anywhere in the body; its two ends stand for what is between them.
    let entry := Env.merge (← (scope :: tried.next.toList).mapM envOf)
    let handled ← m.execHandlers entry handlers
    let met ← join (⟨none, tried.breaks, tried.continues⟩ :: unhandled ++ handled)
    if final.isEmpty then return met
    else
      -- The last block is run even if every path left, but then nothing comes after it.
      let last ← m.execBlock final (← scopeOr entry met.next)
      return met.andThen (if met.next.isSome then last else { last with next := none })
  | .asserting _ test _ =>
    let (_, ends) ← m.branches test scope
    match ends.whenTrue with
    | some env => return .atEnd (← newScope env)
    | none =>
      recordRaise "AssertionError"
      return .left
  | .breaking _ => return ⟨none, [← copyScope scope], []⟩
  | .continuing _ => return ⟨none, [], [← copyScope scope]⟩
  | .function f =>
    let v ← newClosure ⟨f.name, f.params, f.body, scope⟩
    assignName scope f.name v
    return .atEnd scope
  | .asyncFunction f =>
    assignName scope f.name .unknown
    return .atEnd scope
  | .classDef _ name _ _ =>
    assignName scope name .unknown
    return .atEnd scope
  | .withBlock _ items body =>
    items.forM fun (e, target) => do
      let _ ← m.eval e scope
      match target with
      | some t => m.assign t .unknown scope
      | none => return ()
    m.execBlock body scope
  | .matching _ subject arms =>
    let t ← m.forced (m.eval subject scope) subject.pos
    join (← m.execArms t arms scope)
  | .delete _ targets =>
    targets.forM (deleteName scope)
    return .atEnd scope
  | .importing _ what =>
    what.bindings.forM fun (name, path) => assignName scope name (.external name path)
    return .atEnd scope
  | .other .. => return .atEnd scope
termination_by structural s

def execBlock (m : Machine) (ss : List Stmt) (scope : Nat) : Run Flow := do
  match ss with
  | [] => return .atEnd scope
  | s :: rest =>
    let flow ← endingPath (m.exec s scope)
    match flow.next with
    | none => return flow
    | some next => return flow.andThen (← m.execBlock rest next)
termination_by structural ss

def execHandlers (m : Machine) (entry : Env) (handlers : List (Handler Stmt)) : Run (List Flow) := do
  match handlers with
  | [] => return []
  | ⟨exception, name, body⟩ :: rest =>
    let scope ← newScope (handlerEnv name entry)
    let outer ← handled?
    changeFrame fun f => { f with handling := some (exceptionName exception) }
    let flow ← m.execBlock body scope
    changeFrame fun f => { f with handling := outer }
    return flow :: (← m.execHandlers entry rest)
termination_by structural handlers

def execArms (m : Machine) (subject : Ty) (arms : List (Arm Stmt)) (scope : Nat) : Run (List Flow) := do
  match arms with
  | [] => return [.atEnd (← copyScope scope)]
  | ⟨pattern, guard, body⟩ :: rest =>
    let inner ← newScope (← liftFault (pattern.bind subject (← envOf scope)))
    guard.toList.forM fun g => do
      let _ ← m.eval g inner
      return ()
    let flow ← m.execBlock body inner
    -- An arm that always matches hides those after it.
    if guard.isNone && pattern.isIrrefutable then return [flow]
    return flow :: (← m.execArms subject rest scope)
termination_by structural arms

end

end Machine

end Symbolic

end Casewise
