import Casewise.Concrete.Import
import Casewise.Mock
import Casewise.Program.Calls

namespace Casewise.Concrete

open Run

inductive Place where
  | globals
  | object (id : Nat)

namespace Place

def get? (p : Place) (name : String) : Run (Option Value) := do
  match p with
  | .globals => return (← get).globals.get? name
  | .object id => return (Value.object id).member? (← store) name

def set (p : Place) (name : String) (v : Value) : Run Unit :=
  match p with
  | .globals => setGlobal name v
  | .object id => setMember (.object id) name v

end Place

def something? : Option Value → Option Value
  | some .null => none
  | v => v

def installAt (v : Value) (owner : Value) : List String → Run Unit
  | [] => return ()
  | [name] => setMember owner name v
  | name :: rest => do
    match something? (owner.member? (← store) name) with
    | some next => installAt v next rest
    | none =>
      let next ← allocate .space
      setMember owner name next
      installAt v next rest

def install (place : Place) (name : String) (v : Value) : Run Unit := do
  match Dotted.parts name with
  | [] => return ()
  | [root] => place.set root v
  | root :: path =>
    match something? (← place.get? root) with
    | some owner => installAt v owner path
    | none =>
      let owner ← allocate .space
      place.set root owner
      installAt v owner path

def substitute (m : Mock.Payload) (called : Bool) : Run Value :=
  if m.callable || called then allocate (.mock m.value) else return .ofDatum m.value

def imports (p : Program) : List Import :=
  p.body.filterMap fun s => match s with
    | .importing _ i => some i
    | _ => none

def aliases (p : Program) : Bindings (List String) :=
  ((imports p).flatMap Import.bindings).foldl (fun found (name, path) =>
    found.set path ((found.get? path).getD [] ++ [name])) []

/-- The names that a substitute is installed under: its own, and those it has through imports. -/
def targets (known : Bindings (List String)) (name : String) : List String :=
  distinctTexts (name :: known.flatMap fun (path, names) =>
    if name = path || Dotted.isUnder path name then names.map (· ++ Dotted.after name path.length) else [])

def installMocks (p : Program) (mocks : List Mock.Payload) : Run Unit := do
  let called := p.calledNames
  let known := aliases p
  for m in mocks do
    for target in targets known m.name do
      install .globals target (← substitute m (called.contains target))

def neededModules : Import → List String
  | .modules names => names.map (·.name)
  | .members module level _ => if level = 0 && module != "" then [module] else []

def makeModule (name : String) : Run Unit := do
  for path in pathsTo name do
    if !(← store).modules.has path then
      let (s, id) := (← store).add ⟨.module path, []⟩
      modifyStore fun _ => { s with modules := s.modules.set path id }
    match parent? path, ← module? path with
    | some outer, some v =>
      if let some o ← module? outer then setMember o (Dotted.last path) v
    | _, _ => pure ()

def owned (mocks : List Mock.Payload) (module : String) : List Mock.Payload :=
  mocks.filter fun m => m.name = module || Dotted.isUnder module m.name

def stubModule (tails : List String) (module : String) (mocks : List Mock.Payload) : Run Unit := do
  makeModule module
  match (← store).modules.get? module with
  | none => return ()
  | some id =>
    for m in mocks do
      if m.name != module then
        let name := Dotted.after m.name (module.length + 1)
        install (.object id) name (← substitute m (tails.contains (Dotted.last name)))

def stubMissing (p : Program) (mocks : List Mock.Payload) : Run (List String) := do
  let tails := p.calledNames.map Dotted.last
  let mut stubbed : List String := []
  for module in (imports p).flatMap neededModules do
    let mine := owned mocks module
    if !mine.isEmpty && !(← store).modules.has module then
      stubModule tails module mine
      stubbed := stubbed ++ [module]
  return stubbed

end Casewise.Concrete
