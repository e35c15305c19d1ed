import Casewise.Data.Bindings
import Casewise.Data.Scalar

/-!
Types of values: primitives, single values, alternatives, objects, arrays, tuples and functions, with
`unknown` above and `never` below them. `same` is the equality that the analysis uses: alternatives are
compared as sets and numbers by value.
-/

namespace Casewise

inductive Ty where
  | primitive (p : Primitive)
  | literal (value : Scalar)
  | oneOf (members : List Ty)
  | object (fields : List (String × Ty))
  | array (element : Ty)
  | tuple (elements : List Ty)
  | function (params : List Ty) (returns : Ty)
  | unknown
  | never
  | throws (exception : Option String)
  deriving Inhabited

namespace Ty

def number : Ty := .primitive .number
def string : Ty := .primitive .string
def boolean : Ty := .primitive .boolean
def null : Ty := .primitive .null
def undefined : Ty := .primitive .undefined

def int (n : Int) : Ty := .literal (.int n)
def text (s : String) : Ty := .literal (.string s)
def bool (b : Bool) : Ty := .literal (.boolean b)

def isUnknown : Ty → Bool
  | .unknown => true
  | _ => false

def isNever : Ty → Bool
  | .never => true
  | _ => false

def isOneOf : Ty → Bool
  | .oneOf _ => true
  | _ => false

def isFunction : Ty → Bool
  | .function .. => true
  | _ => false

def isPrimitive (p : Primitive) : Ty → Bool
  | .primitive q => p == q
  | _ => false

def isBool (b : Bool) : Ty → Bool
  | .literal (.boolean c) => b == c
  | _ => false

def text? : Ty → Option String
  | .literal (.string s) => some s
  | _ => none

def members : Ty → List Ty
  | .oneOf ms => ms
  | t => [t]

mutual

def same : Ty → Ty → Bool
  | .primitive p, .primitive q => p == q
  | .literal a, .literal b => a.same b
  | .oneOf xs, .oneOf ys => sameSet xs ys (ys.map fun _ => false)
  | .object fs, .object gs => sameFields fs gs
  | .array a, .array b => same a b
  | .tuple xs, .tuple ys => sameAll xs ys
  | .function ps r, .function qs s => sameAll ps qs && same r s
  | .unknown, .unknown => true
  | .never, .never => true
  | .throws e, .throws f => e == f
  | _, _ => false
termination_by structural t => t

def sameAll : List Ty → List Ty → Bool
  | [], [] => true
  | x :: xs, y :: ys => same x y && sameAll xs ys
  | _, _ => false
termination_by structural t => t

def sameFields : List (String × Ty) → List (String × Ty) → Bool
  | [], [] => true
  | (k, x) :: xs, (l, y) :: ys => k == l && same x y && sameFields xs ys
  | _, _ => false
termination_by structural t => t

/-- Every type of the first list has its like in the second, and the other way round. `met` tells which types of
the second list have met their like already, so that each pair is compared once. -/
def sameSet : List Ty → List Ty → List Bool → Bool
  | [], _, met => met.all id
  | x :: xs, ys, met =>
    let row := ys.map fun y => same x y
    row.any id && sameSet xs ys (List.zipWith or met row)
termination_by structural t => t

end

mutual

def mapNumbers {m : Type → Type} [Monad m] (f : Number → m Number) : Ty → m Ty
  | .literal s => do return .literal (← s.mapNumber f)
  | .oneOf ts => do return .oneOf (← mapAll f ts)
  | .object fs => do return .object (← mapFields f fs)
  | .array t => do return .array (← mapNumbers f t)
  | .tuple ts => do return .tuple (← mapAll f ts)
  | .function ps r => do
    let ps ← mapAll f ps
    return .function ps (← mapNumbers f r)
  | t => return t

def mapAll {m : Type → Type} [Monad m] (f : Number → m Number) : List Ty → m (List Ty)
  | [] => return []
  | t :: ts => do
    let t ← mapNumbers f t
    return t :: (← mapAll f ts)

def mapFields {m : Type → Type} [Monad m] (f : Number → m Number) :
    List (String × Ty) → m (List (String × Ty))
  | [] => return []
  | (k, t) :: fs => do
    let t ← mapNumbers f t
    return (k, t) :: (← mapFields f fs)

end

def record (fields : List (String × Ty)) : Ty :=
  .object (sortBy (fun a b => textLe a.1 b.1) (Bindings.ofPairs fields))

end Ty

end Casewise
