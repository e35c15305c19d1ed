import Casewise.Program.Stmt
import Casewise.Ty.OfDatum

/-!
Values of a running program. Functions, modules and namespaces are objects: they are numbered, and members can be
given to them, so that two names for one object see the same members.
-/

namespace Casewise.Concrete

inductive BuiltinKind where
  | function
  | cls
  | method
  | computed
  | stored
  deriving DecidableEq, Repr

namespace BuiltinKind

def className : BuiltinKind → String
  | .function => "builtin_function_or_method"
  | .cls => "type"
  | .method => "method_descriptor"
  | .computed => "getset_descriptor"
  | .stored => "member_descriptor"

def isCallable : BuiltinKind → Bool
  | .computed => false
  | .stored => false
  | _ => true

end BuiltinKind

inductive Value where
  | null
  | scalar (value : Scalar)
  | other (cls : String) (spelling : Option String)
  | list (items : List Value)
  | tuple (items : List Value)
  | set (items : List Value)
  | dict (entries : List (Value × Value))
  | builtin (kind : BuiltinKind) (name : String)
  | exception (cls : String) (args : List Value)
  | object (id : Nat)

instance : Inhabited Value := ⟨.null⟩

structure Closure where
  name : String
  params : Params Value
  body : List Stmt ⊕ Expr
  scope : Bindings Value := []
  isAsync : Bool := false

inductive ObjectKind where
  | space
  | module (name : String)
  | mock (returns : Datum)
  | function (closure : Closure)
  | native (name : String) (isClass : Bool)

structure Object where
  kind : ObjectKind
  members : Bindings Value := []

def Object.isCallable (o : Object) : Bool :=
  match o.kind with
  | .mock _ => true
  | .function _ => true
  | .native .. => true
  | _ => false

structure Store where
  objects : List Object := []
  modules : Bindings Nat := []

namespace Store

def add (s : Store) (o : Object) : Store × Nat := ({ s with objects := s.objects ++ [o] }, s.objects.length)

def get? (s : Store) (id : Nat) : Option Object := s.objects[id]?

def isCallable (s : Store) (id : Nat) : Bool := (s.get? id).any Object.isCallable

def setMember (s : Store) (id : Nat) (name : String) (v : Value) : Store :=
  { s with objects := s.objects.modify id fun o => { o with members := o.members.set name v } }

end Store

namespace Value

def text (s : String) : Value := .scalar (.string s)

def int (n : Int) : Value := .scalar (.int n)

mutual

def ofDatum : Datum → Value
  | .null => .null
  | .scalar s => .scalar s
  | .list ds => .list (ofItems ds)
  | .record fs => .dict (ofFields fs)

def ofItems : List Datum → List Value
  | [] => []
  | d :: ds => ofDatum d :: ofItems ds

def ofFields : List (String × Datum) → List (Value × Value)
  | [] => []
  | (k, d) :: fs => (text k, ofDatum d) :: ofFields fs

end

def text? : Value → Option String
  | .scalar (.string s) => some s
  | _ => none

mutual

/-- The type of a value. A mapping has one only if its keys are texts; what can be called is a function. -/
def type (s : Store) : Value → Ty
  | .null => Ty.null
  | .scalar x => .literal x
  | .other .. => .unknown
  | .list vs => .array (Ty.union (types s vs))
  | .tuple vs => .tuple (types s vs)
  | .set vs => .array (Ty.union (types s vs))
  | .dict es => ((fields? s es).map Ty.record).getD .unknown
  | .builtin kind _ => if kind.isCallable then .function [] .unknown else .unknown
  | .exception .. => .unknown
  | .object id => if s.isCallable id then .function [] .unknown else .unknown

def types (s : Store) : List Value → List Ty
  | [] => []
  | v :: vs => type s v :: types s vs

def fields? (s : Store) : List (Value × Value) → Option (List (String × Ty))
  | [] => some []
  | (k, v) :: es => do
    let name ← k.text?
    let t := type s v
    return (name, t) :: (← fields? s es)

end

mutual

def literal? : Value → Option String
  | .null => some "None"
  | .scalar x => x.literal?
  | .list vs => (literals? vs).map fun ts => "[" ++ ", ".intercalate ts ++ "]"
  | .tuple [v] => (literal? v).map fun t => "(" ++ t ++ ",)"
  | .tuple vs => (literals? vs).map fun ts => "(" ++ ", ".intercalate ts ++ ")"
  | .set [] => some "set()"
  | .set vs => (literals? vs).map fun ts => "\x7b" ++ ", ".intercalate ts ++ "\x7d"
  | .dict es => (entryLiterals? es).map fun ts => "\x7b" ++ ", ".intercalate ts ++ "\x7d"
  | .exception cls vs => (literals? vs).map fun ts => cls ++ "(" ++ ", ".intercalate ts ++ ")"
  | .other _ spelling => spelling
  | _ => none

def literals? : List Value → Option (List String)
  | [] => some []
  | v :: vs => do
    let t ← literal? v
    return t :: (← literals? vs)

def entryLiterals? : List (Value × Value) → Option (List String)
  | [] => some []
  | (k, v) :: es => do
    let a ← literal? k
    let b ← literal? v
    return (a ++ ": " ++ b) :: (← entryLiterals? es)

end

def plain? : Value → Option String
  | .scalar x => x.plain?
  | v => v.literal?

mutual

def equal : Value → Value → Bool
  | .null, .null => true
  | .scalar a, .scalar b => a.equal b || a.same b
  | .list as, .list bs => equalAll as bs
  | .tuple as, .tuple bs => equalAll as bs
  | .builtin k a, .builtin l b => k == l && a == b
  | .object a, .object b => a == b
  | _, _ => false
termination_by structural x => x

def equalAll : List Value → List Value → Bool
  | [], [] => true
  | a :: as, b :: bs => equal a b && equalAll as bs
  | _, _ => false
termination_by structural x => x

end

def className (s : Store) : Value → String
  | .null => "NoneType"
  | .scalar (.number (.int _)) => "int"
  | .scalar (.number (.float _)) => "float"
  | .scalar (.number (.nan _)) => "float"
  | .scalar (.string _) => "str"
  | .scalar (.boolean _) => "bool"
  | .other cls _ => cls
  | .list _ => "list"
  | .tuple _ => "tuple"
  | .set _ => "set"
  | .dict _ => "dict"
  | .builtin kind _ => kind.className
  | .exception cls _ => cls
  | .object id =>
    match (s.get? id).map Object.kind with
    | some .space => "types.SimpleNamespace"
    | some (.module _) => "module"
    | some (.native _ true) => "type"
    | _ => "function"

mutual

def unhashable? (s : Store) : Value → Option String
  | .list _ => some "list"
  | .set _ => some "set"
  | .dict _ => some "dict"
  | .tuple vs => firstUnhashable? s vs
  | .object id =>
    match (s.get? id).map Object.kind with
    | some .space => some "types.SimpleNamespace"
    | _ => none
  | _ => none

def firstUnhashable? (s : Store) : List Value → Option String
  | [] => none
  | v :: vs => (unhashable? s v).or (firstUnhashable? s vs)

end

def distinct (vs : List Value) : List Value := distinctBy equal vs

def setEntry (k v : Value) : List (Value × Value) → List (Value × Value)
  | [] => [(k, v)]
  | (a, b) :: rest => if a.equal k then (a, v) :: rest else (a, b) :: setEntry k v rest

end Value

end Casewise.Concrete
