import Casewise.Program.Expr
import Casewise.Symbolic.Value

namespace Casewise

inductive KnownClass where
  | int
  | float
  | complex
  | bool
  | str
  | list
  | tuple
  | set
  | dict
  deriving DecidableEq, Repr

namespace KnownClass

def all : List KnownClass := [.int, .float, .complex, .bool, .str, .list, .tuple, .set, .dict]

def name : KnownClass → String
  | .int => "int"
  | .float => "float"
  | .complex => "complex"
  | .bool => "bool"
  | .str => "str"
  | .list => "list"
  | .tuple => "tuple"
  | .set => "set"
  | .dict => "dict"

def ofName? (n : String) : Option KnownClass := all.find? (·.name == n)

def kinds : KnownClass → List OperandKind
  | .int => [.number, .boolean]
  | .float => [.number]
  | .complex => [.number]
  | .bool => [.boolean]
  | .str => [.string]
  | .list => [.array]
  | .tuple => [.array]
  | .set => [.array]
  | .dict => [.object]

def type? : KnownClass → Option Ty
  | .int => some .number
  | .float => some .number
  | .complex => some .number
  | .bool => some .boolean
  | .str => some .string
  | _ => none

def ofExpr : Expr → List KnownClass
  | .name _ id => (ofName? id).toList
  | .tuple _ es => (es.mapM fun e : Expr => e.id?.bind ofName?).getD []
  | _ => []

end KnownClass

namespace Ty

def truthPart (t : Ty) (truthy : Bool) : Except Fault Ty := do
  let ms ← t.sortedMembers
  return union (ms.filterMap fun m =>
    if m.isPrimitive .boolean then some (bool truthy)
    else if (if truthy then m.mayBeTruthy else m.mayBeFalsy) then some m
    else none)

def nonePart (t : Ty) : Except Fault Ty := do
  if t.isUnknown then return null
  return if (← t.sortedMembers).any (isPrimitive .null) then null else never

def withoutNone (t : Ty) : Except Fault Ty := do
  return union ((← t.sortedMembers).filter fun m => !m.isPrimitive .null)

def isInstance (classes : List KnownClass) : Ty → Bool
  | .tuple _ => classes.contains .tuple
  | t => (classes.flatMap KnownClass.kinds).contains t.kind

def instancesOf (classes : List KnownClass) : Ty :=
  match classes.mapM KnownClass.type? with
  | some ts => union ts
  | none => .unknown

def instancePart (t : Ty) (classes : List KnownClass) (matching : Bool) : Except Fault Ty := do
  let ms ← t.sortedMembers
  return union (ms.filterMap fun m =>
    if m.isUnknown then some (if matching then instancesOf classes else m)
    else if m.isInstance classes == matching then some m
    else none)

end Ty

/-- The environments for both outcomes of a test; an outcome that cannot happen has none. -/
structure Narrowed where
  whenTrue : Option Env
  whenFalse : Option Env

namespace Narrowed

def both (env : Env) : Narrowed := ⟨some env, some env⟩

def swap (n : Narrowed) : Narrowed := ⟨n.whenFalse, n.whenTrue⟩

def given (n : Narrowed) (truth : Option Bool) : Narrowed where
  whenTrue := if truth == some false then none else n.whenTrue
  whenFalse := if truth == some true then none else n.whenFalse

def passing (n : Narrowed) : LogicalOp → Option Env
  | .and => n.whenTrue
  | .or => n.whenFalse

end Narrowed

namespace Env

def refine (env : Env) (name : String) (t : Ty) : Option Env :=
  if t.isNever then none else some (env.set name (.type t))

def split (env : Env) (name : String) (whenTrue whenFalse : Ty) : Narrowed :=
  ⟨env.refine name whenTrue, env.refine name whenFalse⟩

def typeOf? (env : Env) (name : String) : Option Ty := (env.get? name).bind Value.type?

def narrowTruth (env : Env) (name : String) : Except Fault Narrowed :=
  match env.typeOf? name with
  | some t => do return env.split name (← t.truthPart true) (← t.truthPart false)
  | none => .ok (.both env)

def narrowNone (env : Env) (name : String) (op : CompareOp) : Except Fault Narrowed :=
  match env.typeOf? name with
  | some t => do
    let isNone := env.split name (← t.nonePart) (← t.withoutNone)
    match op with
    | .is => return isNone
    | .eq => return isNone
    | .isNot => return isNone.swap
    | .ne => return isNone.swap
    | _ => return .both env
  | none => .ok (.both env)

def narrowInstance (env : Env) (name : String) (classes : List KnownClass) : Except Fault Narrowed :=
  match env.typeOf? name, classes with
  | some t, _ :: _ => do return env.split name (← t.instancePart classes true) (← t.instancePart classes false)
  | _, _ => .ok (.both env)

end Env

def CompareOp.testsNone : CompareOp → Bool
  | .is => true
  | .isNot => true
  | .eq => true
  | .ne => true
  | _ => false

namespace Expr

mutual

def narrow : Expr → Env → Except Fault Narrowed
  | .unary _ .not e, env => do return (← narrow e env).swap
  | .logical _ op es, env => do
    let last ← narrowAll op es (some env)
    -- Which operand decided is not known, so that outcome says nothing of the variables.
    match op with
    | .and => return ⟨last, some env⟩
    | .or => return ⟨some env, last⟩
  | .name _ n, env => env.narrowTruth n
  | .comparison _ (.name _ n) [(op, .constant _ .null)], env =>
    if op.testsNone then env.narrowNone n op else .ok (.both env)
  | .call _ (.name _ "isinstance") [.name _ n, classes] _, env =>
    -- A variable of this name hides the function.
    if env.has "isinstance" then .ok (.both env) else env.narrowInstance n (KnownClass.ofExpr classes)
  | _, env => .ok (.both env)
termination_by structural e => e

def narrowAll (op : LogicalOp) : List Expr → Option Env → Except Fault (Option Env)
  | [], env => .ok env
  | e :: es, some env => do narrowAll op es ((← narrow e env).passing op)
  | _ :: _, none => .ok none
termination_by structural es => es

end

end Expr

end Casewise
