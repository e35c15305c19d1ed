import Casewise.Concrete.Class
import Casewise.Number.Reading

namespace Casewise.Concrete

structure Process where
  store : Store := {}
  globals : Bindings Value := []
  supply : Mark := ⟨0, 0⟩

inductive Stop where
  | raised (exception message : String)
  | fatal (exception : String)
  | tooLong
  | unsupported
  deriving DecidableEq, Repr

abbrev Run := ExceptT Stop (StateM Process)

namespace Run

def raise {α : Type} (exception message : String) : Run α := throw (.raised exception message)

def store : Run Store := return (← get).store

def modifyStore (f : Store → Store) : Run Unit := modify fun p => { p with store := f p.store }

def allocate (kind : ObjectKind) (members : Bindings Value := []) : Run Value := do
  let (s, id) := (← store).add ⟨kind, members⟩
  modifyStore fun _ => s
  return .object id

def computed (x : Scalar) : Run Value :=
  modifyGet fun p =>
    let (x, supply) := (x.mapNumber Number.mark).run p.supply
    (.scalar x, { p with supply })

def setGlobal (name : String) (v : Value) : Run Unit := modify fun p => { p with globals := p.globals.set name v }

end Run

open Run

namespace Value

def part? (spelling : Option String) (name : String) : Option Value :=
  match name with
  | "real" => some (.scalar (.number (.float 0.0)))
  | "imag" => do
    let x ← Numeral.float? (← spelling).toList.dropLast
    return .scalar (.number (.ofFloat x))
  | _ => none

def plainMember? (s : Store) (v : Value) (name : String) : Option Value :=
  let ms := ClassMembers.ofValues (v.className s)
  if ms.methods.contains name || ms.shared.contains name then some (.builtin .function name)
  else match v with
    | .scalar x => (x.dataMember? name).map .scalar
    | .other "complex" spelling => part? spelling name
    | _ => none

def builtinMember? (kind : BuiltinKind) (of name : String) : Option Value :=
  match kind with
  | .cls => ClassMembers.ofClass? of name
  | _ => if name = "__name__" then some (text of) else none

def ownName? : ObjectKind → Option String
  | .module name => some name
  | .function c => some c.name
  | .mock _ => some "mock"
  | .native name _ => some name
  | .space => none

def member? (s : Store) (v : Value) (name : String) : Option Value :=
  match v with
  | .object id => do
    let o ← s.get? id
    (o.members.get? name).or (if name = "__name__" then (ownName? o.kind).map text else none)
  | .builtin kind of => builtinMember? kind of name
  | v => v.plainMember? s name

def missingMember (s : Store) (v : Value) (name : String) : String :=
  let lacks (what : String) := what ++ " has no attribute '" ++ name ++ "'"
  match v with
  | .object id =>
    match (s.get? id).map Object.kind with
    | some (.module m) => lacks ("module '" ++ m ++ "'")
    | some (.native cls true) => lacks ("type object '" ++ cls ++ "'")
    | _ => lacks ("'" ++ v.className s ++ "' object")
  | .builtin .cls cls => lacks ("type object '" ++ cls ++ "'")
  | v => lacks ("'" ++ v.className s ++ "' object")

def fixedMember (s : Store) (v : Value) (name : String) : String :=
  let cls := v.className s
  let ms := ClassMembers.ofValues cls
  if ms.methods.contains name || ms.shared.contains name || name = "__doc__" then
    "'" ++ cls ++ "' object attribute '" ++ name ++ "' is read-only"
  else if ms.computed.contains name then
    "attribute '" ++ name ++ "' of '" ++ (if cls = "bool" then "int" else cls) ++ "' objects is not writable"
  else if ms.stored.contains name then "readonly attribute"
  else v.missingMember s name

end Value

def getMember (v : Value) (name : String) : Run Value := do
  let s ← store
  match v.member? s name with
  | some m => return m
  | none => raise "AttributeError" (v.missingMember s name)

def setMember (v : Value) (name : String) (m : Value) : Run Unit := do
  match v with
  | .object id => modifyStore fun s => s.setMember id name m
  | .builtin .cls cls => raise "TypeError" ("cannot set '" ++ name ++ "' attribute of immutable type '" ++ cls ++ "'")
  | .builtin .. => raise "AttributeError" (v.missingMember (← store) name)
  | v => raise "AttributeError" (v.fixedMember (← store) name)

end Casewise.Concrete
