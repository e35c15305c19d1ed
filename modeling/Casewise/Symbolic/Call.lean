import Casewise.Symbolic.Builtin
import Casewise.Symbolic.Member
import Casewise.Symbolic.Session

/-!
Calls of what a run knows. The bodies of functions, the defaults of parameters and the constants of the
file are not parts of the expression that needs them, so they are run through a `Machine`.
-/

namespace Casewise.Symbolic

/-- How statements leave a block: the scope after its last statement, unless every path left before, and
the scopes at the places where a loop was left or began again. -/
structure Flow where
  next : Option Nat
  breaks : List Nat := []
  continues : List Nat := []

structure Machine where
  setting : Setting
  evaluate : Expr → Nat → Run Value
  execute : List Stmt → Nat → Run Flow

namespace Machine

def module (m : Machine) : Module := m.setting.module

def force (m : Machine) (v : Value) (pos : Extent) : Run Ty := Symbolic.force m.setting v pos

def forced (m : Machine) (act : Run Value) (pos : Extent) : Run Ty := do m.force (← act) pos

def outside (m : Machine) (e : Expr) : Run Ty := do
  let scope ← newScope []
  m.forced (m.evaluate e scope) e.pos

def constant (m : Machine) (name : String) (e : Expr) : Run Ty := do
  match ← constant? name with
  | some t => return t
  | none =>
    -- A constant that uses itself finds this entry.
    setConstant name .unknown
    let t ← m.outside e
    setConstant name t
    return t

/-- What a name stands for. Variables come first, then mocks, then what the file defines, then what every
program has; any other name comes from outside. -/
def lookup (m : Machine) (name : String) (scope : Nat) : Run Value := do
  match (← envOf scope).get? name with
  | some v => return v
  | none =>
    if (m.setting.mocks.resolve? name).isSome then return .external name name
    match m.module.functions.get? name with
    | some f => return .function name f.params.names.length
    | none =>
      if m.module.classes.contains name then return .type (Value.functionType 0)
      match m.module.constants.get? name with
      | some e => return .type (← m.constant name e)
      | none =>
        if Builtin.isKnown name then return .builtin name
        return .external name ((m.module.imports.get? name).getD name)

structure Outcome where
  returns : Ty
  raises : List String := []
  returned : Bool := true

def packing (m : Machine) : Packing Run Value Expr where
  default e := do return .type (← m.outside e)
  rest vs := .type (.tuple (vs.map Value.asType))
  keywordRest vs := .type (.record (vs.map fun (n, v) => (n, v.asType)))

def bindAll (m : Machine) (filled : Filled Value Expr) (refuse : ArityError → Stop) : Run Env := do
  let env ← m.packing.values filled.entries
  match filled.missing with
  | some e => throw (refuse e)
  | none => return env

def bind (m : Machine) (params : Params Expr) (name : String) (args : List Value) (keywords : Env)
    (refuse : ArityError → Stop) : Run Env := do
  match params.fill name args keywords with
  | .ok filled => m.bindAll filled refuse
  | .error e => throw (refuse e)

def bindCall (m : Machine) (params : Params Expr) (name : String) (args : List Value) (keywords : Env) : Run Env :=
  m.bind params name args keywords fun e => .undefined (.arity e) none

def runBody (m : Machine) (body : List Stmt) (env : Env) (depth : Int) : Run Frame := do
  let scope ← newScope env
  pushFrame depth
  let flow ← m.execute body scope
  if flow.next.isSome then recordReturn .null
  popFrame

/-- Runs a body until the result that it assumes for itself is the result that it gives. Each round assumes
what the last one gave; when no round is left the result is unknown. -/
def settle (m : Machine) (body : List Stmt) (call : Call) (depth : Int) : Nat → Ty → Outcome → Run Outcome
  | 0, _, last => return { last with returns := .unknown }
  | n + 1, assumed, _ => do
    assume call assumed
    let frame ← m.runBody body call.env depth
    let recursive ← hasReentered call
    let returned := Ty.union frame.returns
    -- Only a round that met its own call has relied on the assumption.
    let returned := if recursive then Ty.union [assumed, returned] else returned
    let outcome : Outcome := ⟨returned, frame.raises, !frame.returns.isEmpty⟩
    if !recursive || returned.same assumed then return outcome
    else m.settle body call depth n returned outcome

def callFunction (m : Machine) (f : FunctionDef Stmt) (env : Env) (depth : Int) : Run Outcome := do
  let call : Call := ⟨f.name, env⟩
  match ← assumed? call with
  | some t =>
    -- In progress already, the call gives what is assumed for it.
    reenter call
    return ⟨t, [], true⟩
  | none =>
    if m.setting.limits.depth < depth then return ⟨.unknown, [], true⟩
    else if m.setting.limits.rounds ≤ 0 then throw (.noRounds call)
    else
      let outcome ← m.settle f.body call depth m.setting.limits.rounds.toNat .never ⟨.unknown, [], true⟩
      finish
      return outcome

/-- The result of a call. The exceptions of the callee are the caller's too, and after a call that never
returns the path ends. -/
def resultOf (outcome : Outcome) : Run Value := do
  outcome.raises.forM recordRaise
  if !outcome.returned && !outcome.raises.isEmpty then throw .unreachable
  return .type outcome.returns

def memberOfSingle (m : Machine) (t : Ty) (name : String) (target : Option String) (pos : Extent) : Run Value := do
  match t with
  | .unknown => return .unknown
  | .never => return .type .never
  | .object fields =>
    match Bindings.get? name fields with
    | some f => return .type f
    | none =>
      if (MemberOwner.dict.member? name).isSome then return .method t name target
      warnMissingField m.setting name t pos
      return .unknown
  | t =>
    let found := (MemberOwner.ofType t).filterMap (·.member? name)
    if found.contains .method then return .method t name target
    else if found.isEmpty then liftFault do Fault.of (.member (← t.name) name)
    else match t with
      | .literal s =>
        match s.dataMember? name with
        | some v => return .type (.literal v)
        | none => liftFault do Fault.of (.member (← t.name) name)
      | _ => return .type .number

def isMethod : Value → Bool
  | .method .. => true
  | _ => false

def memberOf (m : Machine) (t : Ty) (name : String) (target : Option String) (pos : Extent) : Run Value := do
  match t with
  | .oneOf ms =>
    let found ← ms.mapM fun t => m.memberOfSingle t name target pos
    -- One method makes it a method of the whole type.
    if found.any isMethod then return .method t name target
    return .type (.union (found.map Value.rawType))
  | t => m.memberOfSingle t name target pos

def itemOfSingle (m : Machine) (t index : Ty) (pos : Extent) : Run Ty := do
  match t with
  | .unknown => return .unknown
  | .never => return .never
  | .object fields =>
    match index.text? with
    | some key =>
      match Bindings.get? key fields with
      | some f => return f
      | none =>
        warnMissingField m.setting key t pos
        return .unknown
    | none => return if fields.isEmpty then .unknown else .union (fields.map (·.2))
  | t => liftFault (t.indexed index)

def itemOf (m : Machine) (t index : Ty) (pos : Extent) : Run Ty := do
  match t with
  | .oneOf ms => return .union (← ms.mapM fun t => m.itemOfSingle t index pos)
  | t => m.itemOfSingle t index pos

def callMethodOn (name : String) (target : Option String) (args : List Ty) (scope : Nat) (t : Ty) : Run Ty := do
  let r ← liftFault (t.methodResult name args)
  match target, r.changed with
  | some x, some changed =>
    -- The variable may be gone by now; then nothing holds the receiver.
    changeEnv scope fun env => if env.has x then env.set x (.type changed) else env
    return r.returns
  | _, _ => return r.returns

def callMethod (receiver : Ty) (name : String) (target : Option String) (args : List Ty) (scope : Nat) :
    Run Ty := do
  let members ← liftFault receiver.sortedMembers
  return .union (← members.mapM (callMethodOn name target args scope))

def callBuiltin (m : Machine) (name : String) (args : List Ty) (keywords : Env) (pos : Extent) : Run Ty := do
  if Builtin.isException name then return .unknown
  let fields ← (if name == "dict" then keywords else []).mapM fun (n, v) => do return (n, ← m.force v pos)
  computed (Builtin.result name args fields)

/-- The arguments of a call to a function that is running already are widened, so that the calls in a
recursion meet each other. -/
def widenRecursive (name : String) (args : List Value) (keywords : Env) : Run (List Value × Env) := do
  if ← isRunning name then
    return (args.map Value.widen, keywords.map fun (n, v) => (n, v.widen))
  else return (args, keywords)

def callNamed (m : Machine) (name : String) (args : List Value) (keywords : Env) : Run Value := do
  match m.module.functions.get? name with
  | none => throw (.noFunction name)
  | some f =>
    let (args, keywords) ← widenRecursive name args keywords
    let env ← m.bindCall f.params f.name args keywords
    resultOf (← m.callFunction f env (← nextDepth))

def callClosure (m : Machine) (id : Nat) (args : List Value) (keywords : Env) : Run Value := do
  let depth ← nextDepth
  if m.setting.limits.depth < depth then return .unknown
  match ← closure? id with
  | none => return .unknown
  | some c =>
    let bound ← m.bindCall c.params c.name args keywords
    -- The scope of the definition is read now, with what was bound in it since.
    let frame ← m.runBody c.body ((← envOf c.scope).update bound) depth
    resultOf ⟨.union frame.returns, frame.raises, !frame.returns.isEmpty⟩

/-- Calls a value. With `loose` some arguments are not known one by one, and then a function of the program
gives an unknown result. -/
def call (m : Machine) (f : Value) (args : List Value) (keywords : Env) (loose : Bool) (pos : Extent)
    (scope : Nat) : Run Value := do
  match f with
  | .function name _ => if loose then return .unknown else m.callNamed name args keywords
  | .closure id _ => if loose then return .unknown else m.callClosure id args keywords
  | .builtin name =>
    let types ← args.mapM fun a => m.force a pos
    return .type (← m.callBuiltin name types keywords pos)
  | .method receiver name target =>
    let types ← args.mapM fun a => m.force a pos
    return .type (← callMethod receiver name target types scope)
  | .external written path =>
    ask written path
    match mocked? m.setting written path with
    | none =>
      warnUnmocked m.setting written pos
      return .unknown
    | some v =>
      match v.type with
      | .function _ r => return .type r
      | t => return .type t
  | .type t => return .type (← liftFault (Value.type t).asType.called)

end Machine

end Casewise.Symbolic
