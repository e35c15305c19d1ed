import Casewise.Diagnostic
import Casewise.Mock
import Casewise.Program.Binding
import Casewise.Program.Module
import Casewise.Symbolic.Value

/-!
The state of a run on types. Variables live in numbered scopes, because a nested function sees what
happens later in the scope that it was defined in.
-/

namespace Casewise.Symbolic

structure Limits where
  depth : Int := 16
  rounds : Int := 8

structure Setting where
  module : Module
  mocks : MockChain
  label : Option String := none
  limits : Limits := {}
  number : Nat := 0

structure Closure where
  name : String
  params : Params Expr
  body : List Stmt
  scope : Nat

/-- A call in progress: what it returned and raised so far, how many handlers surround the current
statement, and the exception that is handled. -/
structure Frame where
  depth : Int
  returns : List Ty := []
  raises : List String := []
  guards : Nat := 0
  handling : Option String := none

structure Call where
  function : String
  env : Env

def Call.same (a b : Call) : Bool := a.function == b.function && a.env.same b.env

structure Session where
  scopes : Array Env := #[]
  closures : Array Closure := #[]
  frames : List Frame := []
  /-- Calls in progress, with the result that is assumed for them. -/
  running : List (Call × Ty) := []
  reentered : List Call := []
  constants : Bindings Ty := []
  diagnostics : List Diagnostic := []
  supply : Mark := ⟨0, 0⟩
  /-- The external symbols whose type or result was asked for, as written and by their paths. -/
  asked : List (String × String) := []

inductive Stop where
  | undefined (cause : TypeError) (span : Option Span)
  | tooLong
  | outOfMemory
  | arity (cause : ArityError)
  | unreachable
  | noFunction (name : String)
  | noRounds (call : Call)
  | exhausted

abbrev Run := ExceptT Stop (StateM Session)

def liftFault {α : Type} : Except Fault α → Run α
  | .ok a => return a
  | .error (.undefined cause) => throw (.undefined cause none)
  | .error .tooLong => throw .tooLong
  | .error .outOfMemory => throw .outOfMemory

def marked (t : Ty) : Run Ty :=
  modifyGet fun s =>
    let (t, supply) := (t.mapNumbers Number.mark).run s.supply
    (t, { s with supply })

def computed (result : Except Fault Ty) : Run Ty := do marked (← liftFault result)

def located {α : Type} (module : Module) (pos : Extent) (act : Run α) : Run α :=
  tryCatch act fun
    | .undefined cause none => throw (.undefined cause (some (module.span pos)))
    | stop => throw stop

def newScope (env : Env) : Run Nat :=
  modifyGet fun s => (s.scopes.size, { s with scopes := s.scopes.push env })

def envOf (scope : Nat) : Run Env := do return ((← get).scopes[scope]?).getD []

def copyScope (scope : Nat) : Run Nat := do newScope (← envOf scope)

def changeEnv (scope : Nat) (f : Env → Env) : Run Unit :=
  modify fun s => { s with scopes := s.scopes.modify scope f }

def assignName (scope : Nat) (name : String) (v : Value) : Run Unit := changeEnv scope (·.set name v)

def newClosure (c : Closure) : Run Value :=
  modifyGet fun s => (.closure s.closures.size c.params.names.length, { s with closures := s.closures.push c })

def closure? (id : Nat) : Run (Option Closure) := do return (← get).closures[id]?

def constant? (name : String) : Run (Option Ty) := do return (← get).constants.get? name

def setConstant (name : String) (t : Ty) : Run Unit :=
  modify fun s => { s with constants := s.constants.set name t }

def changeFrame (f : Frame → Frame) : Run Unit :=
  modify fun s => match s.frames with
    | [] => s
    | frame :: rest => { s with frames := f frame :: rest }

def pushFrame (depth : Int) : Run Unit := modify fun s => { s with frames := { depth } :: s.frames }

def popFrame : Run Frame :=
  modifyGet fun s => match s.frames with
    | [] => ({ depth := 0 }, s)
    | frame :: rest => (frame, { s with frames := rest })

def nextDepth : Run Int := do
  match (← get).frames with
  | [] => return 0
  | frame :: _ => return frame.depth + 1

def recordRaise (name : String) : Run Unit :=
  changeFrame fun f => if f.guards = 0 then { f with raises := f.raises ++ [name] } else f

def recordReturn (t : Ty) : Run Unit := changeFrame fun f => { f with returns := f.returns ++ [t] }

def handled? : Run (Option String) := do return (← get).frames.head?.bind (·.handling)

def assumed? (call : Call) : Run (Option Ty) := do
  return ((← get).running.find? (·.1.same call)).map (·.2)

def isRunning (function : String) : Run Bool := do return (← get).running.any (·.1.function == function)

def reenter (call : Call) : Run Unit :=
  modify fun s => { s with reentered := call :: s.reentered.filter fun c => !c.same call }

def hasReentered (call : Call) : Run Bool := do return (← get).reentered.any (·.same call)

def assume (call : Call) (t : Ty) : Run Unit :=
  modify fun s => { s with
    running := (call, t) :: s.running.filter fun r => !r.1.same call
    reentered := s.reentered.filter fun c => !c.same call }

def finish : Run Unit := modify fun s => { s with running := s.running.tail }

def reportOnce (d : Diagnostic) (covers : Diagnostic → Bool) : Run Unit :=
  modify fun s => if s.diagnostics.any covers then s else { s with diagnostics := s.diagnostics ++ [d] }

def warnUnmocked (cfg : Setting) (written : String) (pos : Extent) : Run Unit :=
  let d := Diagnostic.warning "W300" ("unmocked external symbol '" ++ written ++ "'") (cfg.module.span pos)
  reportOnce { d with caseLabel := cfg.label } fun e => e.code == d.code && e.message == d.message

def reportMissing (cfg : Setting) (field name : String) (pos : Extent) : Run Unit :=
  let d := Diagnostic.warning "W310" ("missing field '" ++ field ++ "' on " ++ name) (cfg.module.span pos)
  reportOnce { d with caseLabel := cfg.label } fun e => e.code == d.code && e.message == d.message &&
    e.span.startLine == d.span.startLine && e.span.startCol == d.span.startCol

def warnMissingField (cfg : Setting) (field : String) (t : Ty) (pos : Extent) : Run Unit := do
  reportMissing cfg field (← liftFault t.name) pos

def ask (written path : String) : Run Unit := modify fun s => { s with asked := (written, path) :: s.asked }

/-- What stands in for an external symbol: the name as written counts before the imported path. -/
def mocked? (cfg : Setting) (written path : String) : Option CaseValue :=
  (cfg.mocks.resolve? written).or (cfg.mocks.resolve? path)

def force (cfg : Setting) (v : Value) (pos : Extent) : Run Ty := do
  match v with
  | .external written path =>
    ask written path
    match mocked? cfg written path with
    | some m => return m.type
    | none =>
      warnUnmocked cfg written pos
      return .unknown
  | v => return v.asType

end Casewise.Symbolic
