import Casewise.Concrete.Eval
import Casewise.Concrete.Install
import Casewise.Sandbox.Exchange
import Casewise.Ty.Encoding

namespace Casewise.Concrete

open Run

def depthLimit : Nat := 1000

def requestMark : Mark := ⟨0, 0⟩

def Process.start (file : String) : Process :=
  { store := libraryStore
    globals := [("__name__", .text "__nudo__"), ("__file__", .text file)]
    supply := { Library.nanMark with place := Library.nanMark.place + 1 } }

def withMarks (r : Sandbox.Request) : Sandbox.Request :=
  let marked (d : Datum) : Datum := Id.run (d.mapNumbers fun n => pure (n.withMark requestMark))
  { r with args := r.args.map marked, mocks := r.mocks.map fun m => { m with value := marked m.value } }

def describe? (s : Store) : Nat → Value → Option String
  | 0, v => v.literal?
  | n + 1, .object id => do
    let o ← s.get? id
    match o.kind with
    | .space => do
      let ms ← o.members.mapM fun (k, v) => (describe? s n v).map (k ++ "=" ++ ·)
      return "namespace(" ++ ", ".intercalate ms ++ ")"
    | .module name => if isLibrary name then none else return "<module '" ++ name ++ "'>"
    | _ => none
  | _ + 1, v => v.literal?

def positional (p : Params Value) (args : List Value) : Except String (List Value) := do
  if p.names.length < args.length && p.rest.isNone then throw "too many positional arguments"
  let firstDefault := p.names.length - p.defaults.length
  let left := (p.names.drop args.length).take (firstDefault - args.length)
  let unnamed := p.keywordOnly.filterMap fun (n, d) => if d.isNone then some n else none
  match (left ++ unnamed).head? with
  | some name => throw ("missing a required argument: " ++ Text.literal name)
  | none => return args.take p.names.length ++ p.defaults.drop (args.length - firstDefault)

def signedClasses : List String :=
  ["complex", "enumerate", "float", "list", "memoryview", "object", "property", "reversed", "tuple"]

def unsigned (cls : String) : String :=
  "no signature found for builtin " ++ (if cls = "type" then "" else "type ") ++ "<class '" ++ cls ++ "'>"

def boundArguments (v : Value) (args : List Value) : Run (List Value) := do
  let s ← store
  let notCallable : Run (List Value) :=
    match describe? s s.objects.length v with
    | some text => raise "TypeError" (text ++ " is not a callable object")
    | none => throw .unsupported
  match v with
  | .builtin .function "print" => return []
  | .builtin .cls cls => if signedClasses.contains cls then throw .unsupported else raise "ValueError" (unsigned cls)
  | .builtin kind _ => if kind.isCallable then throw .unsupported else notCallable
  | .object id =>
    match (s.get? id).map Object.kind with
    | some (.mock _) => return []
    | some (.function c) =>
      match positional c.params args with
      | .ok vs => return vs
      | .error message => raise "TypeError" message
    | some (.native ..) => throw .unsupported
    | _ => notCallable
  | _ => notCallable

def runCase (p : Program) (r : Sandbox.Request) : Run (Value × List Value) := do
  let m := machine depthLimit
  let _ ← stubMissing p r.mocks
  let _ ← m.statements .top p.body
  installMocks p r.mocks
  match (← get).globals.get? r.function with
  | none => raise "KeyError" (Text.literal r.function)
  | some f =>
    let args := r.args.map Value.ofDatum
    let params ← boundArguments f args
    return (← m.call f args [], params)

def execute (p : Program) (r : Sandbox.Request) : Except Stop Sandbox.Answer :=
  match (runCase p (withMarks r)).run (Process.start r.file) with
  | (.error (.raised exception message), _) => .ok (.raised exception message)
  | (.error stop, _) => .error stop
  | (.ok (result, params), process) =>
    let s := process.store
    match (result.type s).encode?, (Value.types s params).mapM Ty.encode? with
    | some returns, some params => .ok (.returned returns params)
    | _, _ => .error .tooLong

end Casewise.Concrete
