import Casewise.Data.Bindings
import Casewise.Data.Scalar

namespace Casewise

inductive Datum where
  | null
  | scalar (value : Scalar)
  | list (items : List Datum)
  | record (fields : List (String × Datum))
  deriving Inhabited

namespace Datum

def text (s : String) : Datum := .scalar (.string s)

def int (n : Int) : Datum := .scalar (.int n)

def bool (b : Bool) : Datum := .scalar (.boolean b)

structure Spelling where
  null : String
  scalar : Scalar → Option String
  key : String → String

mutual

def writeWith (sp : Spelling) : Datum → Option String
  | .null => some sp.null
  | .scalar s => sp.scalar s
  | .list items => (writeItems sp items).map fun ts => "[" ++ ", ".intercalate ts ++ "]"
  | .record fields => (writeFields sp fields).map fun ts => "\x7b" ++ ", ".intercalate ts ++ "\x7d"

def writeItems (sp : Spelling) : List Datum → Option (List String)
  | [] => some []
  | d :: rest => do
    let t ← writeWith sp d
    return t :: (← writeItems sp rest)

def writeFields (sp : Spelling) : List (String × Datum) → Option (List String)
  | [] => some []
  | (k, d) :: rest => do
    let t ← writeWith sp d
    return (sp.key k ++ ": " ++ t) :: (← writeFields sp rest)

end

def write? (d : Datum) : Option String := writeWith ⟨"null", Scalar.text?, Text.escaped⟩ d

mutual

def mapNumbers {m : Type → Type} [Monad m] (f : Number → m Number) : Datum → m Datum
  | .null => return .null
  | .scalar s => do return .scalar (← s.mapNumber f)
  | .list ds => do return .list (← mapItems f ds)
  | .record fs => do return .record (← mapFields f fs)

def mapItems {m : Type → Type} [Monad m] (f : Number → m Number) : List Datum → m (List Datum)
  | [] => return []
  | d :: ds => do
    let d ← mapNumbers f d
    return d :: (← mapItems f ds)

def mapFields {m : Type → Type} [Monad m] (f : Number → m Number) :
    List (String × Datum) → m (List (String × Datum))
  | [] => return []
  | (k, d) :: fs => do
    let d ← mapNumbers f d
    return (k, d) :: (← mapFields f fs)

end

def field? (d : Datum) (name : String) : Option Datum :=
  match d with
  | .record fields => Bindings.get? name fields
  | _ => none

def items : Datum → List Datum
  | .list ds => ds
  | _ => []

def itemsAt (d : Datum) (name : String) : List Datum := ((d.field? name).map items).getD []

def text? : Datum → Option String
  | .scalar (.string s) => some s
  | _ => none

def textAt? (d : Datum) (name : String) : Option String := (d.field? name).bind text?

def textAt (d : Datum) (name : String) : String := (d.textAt? name).getD ""

def int? : Datum → Option Int
  | .scalar (.number (.int n)) => some n
  | _ => none

def number? : Datum → Option Number
  | .scalar (.number n) => some n
  | _ => none

def bool? : Datum → Option Bool
  | .scalar (.boolean b) => some b
  | _ => none

def isNull : Datum → Bool
  | .null => true
  | _ => false

def children : Datum → List Datum
  | .list ds => ds
  | .record fs => fs.map (·.2)
  | _ => []

mutual

def depth : Datum → Nat
  | .null => 0
  | .scalar _ => 0
  | .list ds => depthAll ds + 1
  | .record fs => depthFields fs + 1

def depthAll : List Datum → Nat
  | [] => 0
  | d :: ds => max (depth d) (depthAll ds)

def depthFields : List (String × Datum) → Nat
  | [] => 0
  | (_, d) :: fs => max (depth d) (depthFields fs)

end

end Datum

end Casewise
