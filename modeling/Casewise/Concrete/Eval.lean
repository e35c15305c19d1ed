import Casewise.Concrete.Exception
import Casewise.Concrete.Import
import Casewise.Program.Binding

/-!
Evaluation of programs that hardly compute: constants, displays, names, members, calls of substitutes, and
statements that bind, import, return or raise. Anything else stops the program as not supported.
-/

namespace Casewise.Concrete

open Run

inductive Frame where
  | top
  | inside (names : Bindings Value)

namespace Frame

def names : Frame → Bindings Value
  | .top => []
  | .inside ns => ns

def bind (f : Frame) (name : String) (v : Value) : Run Frame :=
  match f with
  | .top => do
    setGlobal name v
    return .top
  | .inside ns => return .inside (ns.set name v)

def bindAll (f : Frame) (bs : Bindings Value) : Run Frame := bs.foldlM (fun f b => f.bind b.1 b.2) f

def lookup (f : Frame) (name : String) : Run Value := do
  match (f.names.get? name).or ((← get).globals.get? name) with
  | some v => return v
  | none =>
    if Builtin.isException name then return .builtin .cls (canonicalException name)
    if Builtin.classes.contains name then return .builtin .cls name
    if Builtin.isKnown name || Builtin.otherFunctions.contains name then return .builtin .function name
    if let some cls := Bindings.get? name Builtin.otherValues then return .other cls (some name)
    raise "NameError" ("name '" ++ name ++ "' is not defined")

end Frame

def requireHashable (v : Value) : Run Unit := do
  match v.unhashable? (← store) with
  | some cls => raise "TypeError" ("unhashable type: '" ++ cls ++ "'")
  | none => return ()

def makeSet (vs : List Value) : Run Value := do
  vs.forM requireHashable
  return .set (Value.distinct vs)

def makeDict (es : List (Value × Value)) : Run Value := do
  es.forM fun e => requireHashable e.1
  return .dict (es.foldl (fun d e => Value.setEntry e.1 e.2 d) [])

def constant : Constant → Value
  | .null => .null
  | .scalar s => .scalar s
  | .other cls spelling => .other cls (some spelling)

def unary (op : UnaryOp) (v : Value) : Run Value :=
  match op, v with
  | .neg, .scalar x =>
    match x.number? with
    | some n => computed (.number n.negate)
    | none => throw .unsupported
  | .not, .scalar x => return .scalar (.boolean !x.truth)
  | .not, .null => return .scalar (.boolean true)
  | _, _ => throw .unsupported

def binary (op : BinaryOp) (l r : Value) : Run Value :=
  match l, r with
  | .scalar a, .scalar b =>
    match Scalar.fold op a b with
    | some c => computed c
    | none => throw .unsupported
  | _, _ => throw .unsupported

def spread : Value → Run (List Value)
  | .list vs => return vs
  | .tuple vs => return vs
  | _ => throw .unsupported

def packing : Packing Run Value Value where
  default v := return v
  rest vs := .tuple vs
  keywordRest bs := .dict (bs.map fun (k, v) => (.text k, v))

structure Machine where
  evaluate : Frame → Expr → Run Value
  call : Value → List Value → Bindings Value → Run Value

namespace Machine

variable (m : Machine)

def evaluateAll (f : Frame) (es : List Expr) : Run (List Value) := es.mapM (m.evaluate f)

def arguments (f : Frame) (es : List Expr) : Run (List Value) := do
  return (← es.mapM fun e => match e with
    | .starred _ inner => do spread (← m.evaluate f inner)
    | e => do return [← m.evaluate f e]).flatten

def keywords (f : Frame) (ks : List (Keyword Expr)) : Run (Bindings Value) := do
  return Bindings.ofPairs (← ks.mapM fun k => do
    match k.name with
    | some name => return (name, ← m.evaluate f k.value)
    | none => throw .unsupported)

def params (f : Frame) (p : Params Expr) : Run (Params Value) := do
  let defaults ← m.evaluateAll f p.defaults
  let keywordOnly ← p.keywordOnly.mapM fun (n, d) => do return (n, ← d.mapM (m.evaluate f))
  return ⟨p.positionalOnly, p.ordinary, defaults, p.rest, keywordOnly, p.keywordRest, []⟩

def entries (f : Frame) (es : List (Option Expr × Expr)) : Run (List (Value × Value)) :=
  es.mapM fun (k, v) => do
    match k with
    | some k => return (← m.evaluate f k, ← m.evaluate f v)
    | none => throw .unsupported

def expression (f : Frame) : Expr → Run Value
  | .constant _ c => return constant c
  | .name _ id => f.lookup id
  | .member _ e name => do getMember (← m.evaluate f e) name
  | .tuple _ es => do return .tuple (← m.arguments f es)
  | .list _ es => do return .list (← m.arguments f es)
  | .set _ es => do makeSet (← m.arguments f es)
  | .dict _ es => do makeDict (← m.entries f es)
  | .unary _ op e => do unary op (← m.evaluate f e)
  | .binary _ op l r => do
    let a ← m.evaluate f l
    binary op a (← m.evaluate f r)
  | .subscript _ e i => do
    match ← m.evaluate f e, ← m.evaluate f i with
    | .builtin .cls cls, _ => return .builtin .cls cls
    | _, _ => throw .unsupported
  | .lambda _ p body => do
    let p ← m.params f p
    allocate (.function ⟨"<lambda>", p, .inr body, f.names, false⟩)
  | .call _ callee args ks => do
    let function ← m.evaluate f callee
    let args ← m.arguments f args
    m.call function args (← m.keywords f ks)
  | _ => throw .unsupported

def define (f : Frame) (d : FunctionDef Stmt) (isAsync : Bool) : Run Value := do
  if !d.decorators.isEmpty then throw .unsupported
  let p ← m.params f d.params
  allocate (.function ⟨d.name, p, .inl d.body, f.names, isAsync⟩)

def assign (f : Frame) (v : Value) : Expr → Run Frame
  | .name _ id => f.bind id v
  | .member _ e name => do
    setMember (← m.evaluate f e) name v
    return f
  | _ => throw .unsupported

def statement (f : Frame) : Stmt → Run (Frame × Option Value)
  | .expr _ e => do
    let _ ← m.evaluate f e
    return (f, none)
  | .assign _ targets e => do
    let v ← m.evaluate f e
    return (← targets.foldlM (fun f t => m.assign f v t) f, none)
  | .annotated _ target _ (some e) => do
    let v ← m.evaluate f e
    return (← m.assign f v target, none)
  | .annotated _ _ _ none => return (f, none)
  | .returns _ none => return (f, some .null)
  | .returns _ (some e) => do return (f, some (← m.evaluate f e))
  | .raising _ none _ => raise "RuntimeError" "No active exception to reraise"
  | .raising _ (some e) _ => do raiseValue (← m.evaluate f e)
  | .importing _ i => do return (← f.bindAll (← importBindings i), none)
  | .function d => do return (← f.bind d.name (← m.define f d false), none)
  | .asyncFunction d => do return (← f.bind d.name (← m.define f d true), none)
  | .other _ [] [] => return (f, none)
  | _ => throw .unsupported

def statements (f : Frame) : List Stmt → Run (Option Value)
  | [] => return none
  | s :: rest => do
    match ← m.statement f s with
    | (_, some v) => return some v
    | (f, none) => statements f rest

def body (c : Closure) (names : Bindings Value) : Run Value := do
  let f := Frame.inside (c.scope.update names)
  match c.body with
  | .inl ss => return (← m.statements f ss).getD .null
  | .inr e => m.evaluate f e

def apply (c : Closure) (args : List Value) (ks : Bindings Value) : Run Value := do
  match c.params.fill c.name args ks with
  | .error e => raise "TypeError" e.message
  | .ok filled =>
    match filled.missing with
    | some e => raise "TypeError" e.message
    | none => if c.isAsync then return .other "coroutine" none else m.body c (← packing.values filled.entries)

def invoke (v : Value) (args : List Value) (ks : Bindings Value) : Run Value := do
  let s ← store
  match v with
  | .builtin .function "print" => return .null
  | .builtin kind name =>
    if kind = .cls && Builtin.isException name then makeException name args
    else if kind.isCallable then throw .unsupported
    else raise "TypeError" ("'" ++ v.className s ++ "' object is not callable")
  | .object id =>
    match (s.get? id).map Object.kind with
    | some (.mock returns) => return .ofDatum returns
    | some (.function c) => m.apply c args ks
    | some (.native ..) => throw .unsupported
    | _ => raise "TypeError" ("'" ++ v.className s ++ "' object is not callable")
  | v => raise "TypeError" ("'" ++ v.className s ++ "' object is not callable")

end Machine

def machine : Nat → Machine
  | 0 => ⟨fun _ _ => throw .unsupported, fun _ _ _ => throw .unsupported⟩
  | n + 1 => ⟨fun f e => (machine n).expression f e, fun v args ks => (machine n).invoke v args ks⟩

end Casewise.Concrete
