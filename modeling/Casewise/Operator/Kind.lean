import Casewise.Ty.Union

namespace Casewise

inductive OperandKind where
  | number
  | string
  | boolean
  | null
  | undefined
  | array
  | object
  | function
  | other
  deriving DecidableEq, Repr

namespace OperandKind

def ofPrimitive : Primitive → OperandKind
  | .number => .number
  | .string => .string
  | .boolean => .boolean
  | .null => .null
  | .undefined => .undefined

def name : OperandKind → String
  | .number => "number"
  | .string => "string"
  | .boolean => "boolean"
  | .null => "null"
  | .undefined => "undefined"
  | .array => "array"
  | .object => "object"
  | .function => "function"
  | .other => "other"

def isNumeric (k : OperandKind) : Bool := k == .number || k == .boolean

def isContainer (k : OperandKind) : Bool := k == .string || k == .array || k == .object

def comparable (l r : OperandKind) : Bool :=
  (l.isNumeric && r.isNumeric) || (l == r && (l == .string || l == .array))

end OperandKind

namespace Ty

def kind : Ty → OperandKind
  | .literal s => .ofPrimitive s.primitive
  | .primitive p => .ofPrimitive p
  | .array _ => .array
  | .tuple _ => .array
  | .object _ => .object
  | .function .. => .function
  | _ => .other

def agreed : List (Option Bool) → Option Bool
  | [] => none
  | t :: ts => if ts.all (· == t) then t else none

mutual

def truth? : Ty → Option Bool
  | .literal s => some s.truth
  | .primitive .null => some false
  | .primitive .undefined => some false
  | .tuple es => some (!es.isEmpty)
  | .function .. => some true
  | .oneOf ms => agreed (truths ms)
  | _ => none

def truths : List Ty → List (Option Bool)
  | [] => []
  | t :: ts => truth? t :: truths ts

end

def mayBeTruthy (t : Ty) : Bool := t.truth? != some false

def mayBeFalsy (t : Ty) : Bool := t.truth? != some true

end Ty

end Casewise
