import Casewise.Sampling
import Casewise.Text.Dotted

namespace Casewise

structure Mock where
  symbol : String
  substitute : CaseValue

namespace Mock

def type (m : Mock) : Ty := m.substitute.type

def field? (name : String) : CaseValue → Option CaseValue
  | .concrete (.record fs) => (Bindings.get? name fs).map .concrete
  | .symbolic (.object fs) => (Bindings.get? name fs).map .symbolic
  | _ => none

def path? (v : CaseValue) (path : List String) : Option CaseValue := path.foldlM (fun v name => field? name v) v

structure Payload where
  name : String
  value : Datum
  callable : Bool

def sampleOr (name : String) (callable : Bool) (t : Ty) : Except SampleError Payload :=
  match t.representative with
  | .ok d => .ok ⟨name, d, callable⟩
  | .error (.unsampleable _) => .ok ⟨name, .null, false⟩
  | .error e => .error e

def payload (m : Mock) : Except SampleError Payload :=
  match m.substitute with
  | .concrete d => .ok ⟨m.symbol, d, false⟩
  | .symbolic (.function _ r) => sampleOr m.symbol true r
  | .symbolic t => sampleOr m.symbol false t

end Mock

/-- The substitutes that are visible somewhere: one table for each scope, the innermost first. -/
abbrev MockChain := List (Bindings CaseValue)

namespace MockChain

def lookup? (name : String) : MockChain → Option CaseValue
  | [] => none
  | s :: outer => (s.get? name).or (lookup? name outer)

def underRoot? (chain : MockChain) (name : String) : Option CaseValue :=
  match Dotted.parts name with
  | root :: part :: path => (chain.lookup? root).bind fun v => Mock.path? v (part :: path)
  | _ => none

def resolve? (chain : MockChain) (name : String) : Option CaseValue :=
  (chain.lookup? name).or (chain.underRoot? name)

def entries : MockChain → Bindings CaseValue
  | [] => []
  | s :: outer => (entries outer).update s

def mocks (chain : MockChain) : List Mock := chain.entries.map fun (n, v) => ⟨n, v⟩

def mapNumbers {m : Type → Type} [Monad m] (f : Number → m Number) (chain : MockChain) : m MockChain :=
  chain.mapM fun s => s.mapM fun (n, v) => do return (n, ← v.mapNumbers f)

end MockChain

structure MockScope where
  parent : Option Nat
  entries : Bindings CaseValue

/-- The scopes of a file by number. The file's own scope has number zero. -/
structure MockRegistry where
  scopes : List MockScope

namespace MockRegistry

def file : Nat := 0

def empty : MockRegistry := ⟨[⟨none, []⟩]⟩

def child (r : MockRegistry) (parent : Nat) : MockRegistry × Nat :=
  (⟨r.scopes ++ [⟨some parent, []⟩]⟩, r.scopes.length)

def register (r : MockRegistry) (scope : Nat) (m : Mock) : MockRegistry :=
  ⟨r.scopes.modify scope fun s => { s with entries := s.entries.set m.symbol m.substitute }⟩

def registerAll (r : MockRegistry) (scope : Nat) (ms : List Mock) : MockRegistry :=
  ms.foldl (fun r m => r.register scope m) r

def chainFrom (r : MockRegistry) : Nat → Nat → MockChain
  | 0, _ => []
  | n + 1, scope =>
    match r.scopes[scope]? with
    | none => []
    | some s => s.entries :: (match s.parent with
      | none => []
      | some p => chainFrom r n p)

def chain (r : MockRegistry) (scope : Nat) : MockChain := r.chainFrom (scope + 1) scope

def local? (r : MockRegistry) (scope : Nat) (name : String) : Option CaseValue :=
  (r.scopes[scope]?).bind fun s => s.entries.get? name

def resolve? (r : MockRegistry) (scope : Nat) (name : String) : Option CaseValue :=
  (r.chain scope).resolve? name

def entries (r : MockRegistry) (scope : Nat) : List Mock := (r.chain scope).mocks

end MockRegistry

end Casewise
