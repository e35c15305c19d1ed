import Casewise.Concrete.Library
import Casewise.Concrete.Process
import Casewise.Text.Dotted

namespace Casewise.Concrete

def pathsTo (name : String) : List String :=
  let parts := Dotted.parts name
  (List.range parts.length).map fun n => Dotted.join (parts.take (n + 1))

def parent? (name : String) : Option String :=
  match (Dotted.parts name).dropLast with
  | [] => none
  | parts => some (Dotted.join parts)

def noModule (name : String) : String :=
  let text := "No module named '" ++ name ++ "'"
  match parent? name with
  | some p => if isPackage p then text else text ++ "; '" ++ p ++ "' is not a package"
  | none => text

namespace Run

def module? (name : String) : Run (Option Value) := return ((← store).modules.get? name).map Value.object

def importModule (name : String) : Run Value := do
  if let some v ← module? name then return v
  let modules := (← store).modules
  match (pathsTo name).find? fun p => !modules.has p with
  | some missing => raise "ModuleNotFoundError" (noModule missing)
  | none => throw .unsupported

def memberOrModule (owner : Value) (path name : String) : Run (Option Value) := do
  match owner.member? (← store) name with
  | some v => return some v
  | none => module? (path ++ "." ++ name)

def follow (root : Value) (path : String) : List String → Run Value
  | [] => return root
  | part :: rest => do
    match ← memberOrModule root path part with
    | some v => follow v (path ++ "." ++ part) rest
    | none => raise "ImportError" ("cannot import name '" ++ part ++ "' from '" ++ path ++ "' (unknown location)")

def moduleBinding (n : ImportName) : Run (String × Value) := do
  let _ ← importModule n.name
  let root := Import.root n.name
  let outer ← importModule root
  match n.localName with
  | none => return (root, outer)
  | some a => return (a, ← follow outer root (Dotted.parts n.name).tail)

def publicMembers (path : String) (v : Value) : Run (Bindings Value) := do
  let hidden := ((Library.modules.find? (·.path == path)).map (·.hidden)).getD []
  match v with
  | .object id => return (((← store).get? id).map Object.members).getD [] |>.filter fun m =>
      m.1.toList.head? != some '_' && !hidden.contains m.1
  | _ => return []

def memberBindings (module : String) (n : ImportName) : Run (Bindings Value) := do
  let owner ← importModule module
  if n.name = "*" then publicMembers module owner
  else
    match ← memberOrModule owner module n.name with
    | some v => return [(n.localName.getD n.name, v)]
    | none => raise "ImportError" ("cannot import name '" ++ n.name ++ "' from '" ++ module ++ "' (unknown location)")

def importBindings : Import → Run (Bindings Value)
  | .modules names => names.mapM moduleBinding
  | .members module level names => do
    if 0 < level then raise "ImportError" "attempted relative import with no known parent package"
    let _ ← importModule module
    return (← names.mapM (memberBindings module)).flatten

end Run

end Casewise.Concrete
