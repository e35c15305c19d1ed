import Casewise.Text.Percent

namespace Casewise

inductive BinaryOp where
  | add | sub | mul | div | floorDiv | mod | pow | bitAnd | bitOr | bitXor | shiftLeft | shiftRight
  | other (symbol : String)
  deriving DecidableEq, Repr

namespace BinaryOp

def known : List BinaryOp :=
  [.add, .sub, .mul, .div, .floorDiv, .mod, .pow, .bitAnd, .bitOr, .bitXor, .shiftLeft, .shiftRight]

def symbol : BinaryOp → String
  | .add => "+"
  | .sub => "-"
  | .mul => "*"
  | .div => "/"
  | .floorDiv => "//"
  | .mod => "%"
  | .pow => "**"
  | .bitAnd => "&"
  | .bitOr => "|"
  | .bitXor => "^"
  | .shiftLeft => "<<"
  | .shiftRight => ">>"
  | .other s => s

def ofSymbol (s : String) : BinaryOp := (known.find? (·.symbol == s)).getD (.other s)

end BinaryOp

inductive CompareOp where
  | eq | ne | lt | gt | le | ge | is | isNot | isIn | notIn
  | other (symbol : String)
  deriving DecidableEq, Repr

namespace CompareOp

def known : List CompareOp := [.eq, .ne, .lt, .gt, .le, .ge, .is, .isNot, .isIn, .notIn]

def symbol : CompareOp → String
  | .eq => "=="
  | .ne => "!="
  | .lt => "<"
  | .gt => ">"
  | .le => "<="
  | .ge => ">="
  | .is => "is"
  | .isNot => "is not"
  | .isIn => "in"
  | .notIn => "not in"
  | .other s => s

def ofSymbol (s : String) : CompareOp := (known.find? (·.symbol == s)).getD (.other s)

end CompareOp

namespace Scalar

def exponentLimit : Int := 64

def repeatLimit : Int := 1024

def atMost (limit : Int) (n : Number) : Bool :=
  !n.isNaN && !(Number.int limit).less n && !n.less (.int (-limit))

def foldable : BinaryOp → Scalar → Scalar → Bool
  | .pow, _, r => r.number?.any (atMost exponentLimit)
  | .shiftLeft, _, r => r.number?.any (atMost exponentLimit)
  | .mul, .string _, r => r.int?.any (· ≤ repeatLimit)
  | .mul, l, .string _ => l.int?.any (· ≤ repeatLimit)
  | _, _, _ => true

def leastCount : Int := -Int.pow 2 63

def repeated (s : String) (n : Int) : Option String :=
  if n < leastCount then none else some (String.ofList ((List.replicate n.toNat s.toList).flatten))

def foldBits (onBool : Bool → Bool → Bool) (onInt : Int → Int → Int) : Scalar → Scalar → Option Scalar
  | .boolean a, .boolean b => some (.boolean (onBool a b))
  | a, b => do return .int (onInt (← a.int?) (← b.int?))

def foldNumbers (op : Number → Number → Option Number) (a b : Scalar) : Option Scalar := do
  return .number (← op (← a.number?) (← b.number?))

def foldShift (op : Int → Int → Option Int) (a b : Scalar) : Option Scalar := do
  return .int (← op (← a.int?) (← b.int?))

def fold : BinaryOp → Scalar → Scalar → Option Scalar
  | .add, .string a, .string b => some (.string (a ++ b))
  | .mul, .string a, b => do return .string (← repeated a (← b.int?))
  | .mul, a, .string b => do return .string (← repeated b (← a.int?))
  | .mod, .string a, b => (Text.Percent.format a b).toOption.map .string
  | .add, a, b => foldNumbers Number.add a b
  | .sub, a, b => foldNumbers Number.sub a b
  | .mul, a, b => foldNumbers Number.mul a b
  | .div, a, b => foldNumbers Number.div a b
  | .floorDiv, a, b => foldNumbers Number.floorDiv a b
  | .mod, a, b => foldNumbers Number.mod a b
  | .pow, a, b => foldNumbers Number.pow a b
  | .bitAnd, a, b => foldBits (· && ·) Number.bitAnd a b
  | .bitOr, a, b => foldBits (· || ·) Number.bitOr a b
  | .bitXor, a, b => foldBits (· != ·) Number.bitXor a b
  | .shiftLeft, a, b => foldShift Number.shiftLeft a b
  | .shiftRight, a, b => foldShift Number.shiftRight a b
  | .other _, _, _ => none

def outgrows : BinaryOp → Scalar → Scalar → Bool
  | .mod, .string a, b =>
    match Text.Percent.format a b with
    | .error .tooLarge => true
    | _ => false
  | _, _, _ => false

def equal (a b : Scalar) : Bool :=
  match a.number?, b.number? with
  | some x, some y => x.equal y
  | _, _ => a.same b

def less? (a b : Scalar) : Option Bool :=
  match a, b with
  | .string x, .string y => some (decide (x < y))
  | a, b => do return (← a.number?).less (← b.number?)

def foldCompare : CompareOp → Scalar → Scalar → Option Bool
  | .eq, a, b => some (equal a b)
  | .ne, a, b => some (!equal a b)
  | .lt, a, b => less? a b
  | .gt, a, b => less? b a
  | .le, a, b => (less? a b).map (· || equal a b)
  | .ge, a, b => (less? b a).map (· || equal a b)
  | _, _, _ => none

def occursIn (part whole : List Char) : Bool :=
  match whole with
  | [] => part.isEmpty
  | c :: rest => part.isPrefixOf (c :: rest) || occursIn part rest

end Scalar

end Casewise
