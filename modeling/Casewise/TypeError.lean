import Casewise.Program.Arity
import Casewise.Ty.Name

namespace Casewise

inductive TypeError where
  | operator (symbol : String)
  | operands (symbol left right : String)
  | unaryOperand (symbol operand : String)
  | containment (type : String)
  | member (type member : String)
  | subscript (type : String)
  | iteration (type : String)
  | call (type : String)
  | length (type : String)
  | indexType (sequence type : String)
  | tupleIndex
  | sliceStep
  | itemAssignment
  | surplusValues (expected : Nat)
  | missingValues (expected got : Nat)
  | missingValuesStarred (expected got : Nat)
  | ordering (types : List String)
  | noLengthArgument
  | noArgument (function : String)
  | argument (function type : String)
  | arity (cause : ArityError)
  deriving DecidableEq, Repr

def TypeError.message : TypeError → String
  | .operator s => "unsupported operator " ++ s
  | .operands s l r => "unsupported operand types for " ++ s ++ ": '" ++ l ++ "' and '" ++ r ++ "'"
  | .unaryOperand s t => "bad operand type for unary " ++ s ++ ": '" ++ t ++ "'"
  | .containment t => "argument of type '" ++ t ++ "' is not iterable"
  | .member t a => "'" ++ t ++ "' has no attribute '" ++ a ++ "'"
  | .subscript t => "'" ++ t ++ "' object is not subscriptable"
  | .iteration t => "'" ++ t ++ "' object is not iterable"
  | .call t => "'" ++ t ++ "' object is not callable"
  | .length t => "object of type '" ++ t ++ "' has no len()"
  | .indexType s t => s ++ " indices must be integers, not '" ++ t ++ "'"
  | .tupleIndex => "tuple index out of range"
  | .sliceStep => "slice step cannot be zero"
  | .itemAssignment => "'tuple' object does not support item assignment"
  | .surplusValues n => "too many values to unpack (expected " ++ toString n ++ ")"
  | .missingValues n g =>
    "not enough values to unpack (expected " ++ toString n ++ ", got " ++ toString g ++ ")"
  | .missingValuesStarred n g =>
    "not enough values to unpack (expected at least " ++ toString n ++ ", got " ++ toString g ++ ")"
  | .ordering ts => "'<' not supported between " ++ ", ".intercalate ts
  | .noLengthArgument => "len() takes exactly one argument (0 given)"
  | .noArgument f => f ++ "() takes at least one argument"
  | .argument f t => f ++ "() does not accept '" ++ t ++ "'"
  | .arity e => e.message

inductive Fault where
  | undefined (cause : TypeError)
  | tooLong
  | outOfMemory
  deriving DecidableEq, Repr

def orTooLong {α : Type} : Option α → Except Fault α
  | some a => .ok a
  | none => .error .tooLong

namespace Ty

def name (t : Ty) : Except Fault String := orTooLong t.name?

def sortedMembers (t : Ty) : Except Fault (List Ty) := orTooLong t.sortedMembers?

end Ty

end Casewise
