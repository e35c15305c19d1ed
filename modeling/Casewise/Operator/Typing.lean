import Casewise.Operator.Fold
import Casewise.Operator.Kind
import Casewise.TypeError

namespace Casewise

inductive UnaryOp where
  | neg | pos | invert | not
  | other (symbol : String)
  deriving DecidableEq, Repr

namespace UnaryOp

def known : List UnaryOp := [.neg, .pos, .invert, .not]

def symbol : UnaryOp → String
  | .neg => "-"
  | .pos => "+"
  | .invert => "~"
  | .not => "not"
  | .other s => s

def ofSymbol (s : String) : UnaryOp := (known.find? (·.symbol == s)).getD (.other s)

end UnaryOp

namespace Ty

def distribute (rule : Ty → Ty → Except Fault Ty) (l r : Ty) : Except Fault Ty := do
  let ls ← l.sortedMembers
  let rs ← r.sortedMembers
  let results ← ls.mapM fun a => rs.mapM (rule a)
  return union results.flatten

def mismatch {α : Type} (symbol : String) (l r : Ty) : Except Fault α := do
  let left ← l.name
  let right ← r.name
  throw (.undefined (.operands symbol left right))

def element : Ty → Ty
  | .array e => e
  | .tuple es => union es
  | _ => .never

def repeated : Ty → Ty
  | .tuple es => .array (union es)
  | t => t

def concatenated : Ty → Ty → Option Ty
  | .tuple as, .tuple bs => some (.tuple (as ++ bs))
  | .array a, .array b => some (.array (union [a, b]))
  | l, r => if l.kind == .string && r.kind == .string then some string else none

def multiplied (l r : Ty) : Option Ty :=
  if (l.kind == .string && r.kind.isNumeric) || (r.kind == .string && l.kind.isNumeric) then some string
  else if l.kind == .array && r.kind.isNumeric then some l.repeated
  else if r.kind == .array && l.kind.isNumeric then some r.repeated
  else none

def kindResult (op : BinaryOp) (l r : Ty) : Option Ty :=
  if l.kind.isNumeric && r.kind.isNumeric then
    if [BinaryOp.bitAnd, .bitOr, .bitXor].contains op && l.kind == .boolean && r.kind == .boolean then
      some boolean
    else some number
  else match op with
    | .add => concatenated l r
    | .mul => multiplied l r
    | .mod => if l.kind == .string then some string else none
    | _ => none

def folded (op : BinaryOp) : Ty → Ty → Except Fault (Option Ty)
  | .literal a, .literal b =>
    if !Scalar.foldable op a b then .ok none
    else if Scalar.outgrows op a b then .error .outOfMemory
    else .ok ((Scalar.fold op a b).map .literal)
  | _, _ => .ok none

def binarySingle (op : BinaryOp) (l r : Ty) : Except Fault Ty :=
  if l.isUnknown || r.isUnknown then .ok .unknown
  else if l.isNever || r.isNever then .ok .never
  else match kindResult op l r with
    | none => mismatch op.symbol l r
    -- Operands of matching kinds have a result even where folding fails.
    | some result => do return (← folded op l r).getD result

def binary (op : BinaryOp) (l r : Ty) : Except Fault Ty :=
  match op with
  | .other s => .error (.undefined (.operator s))
  | op =>
    if l.isUnknown || r.isUnknown then .ok .unknown
    else if l.isNever || r.isNever then .ok .never
    else if l.isOneOf || r.isOneOf then distribute (binarySingle op) l r
    else binarySingle op l r

def comparedTo (op : CompareOp) : Ty → Ty → Ty
  | .literal a, .literal b => ((Scalar.foldCompare op a b).map bool).getD boolean
  | _, _ => boolean

def contained (negated : Bool) : Ty → Ty → Ty
  | .literal (.string a), .literal (.string b) => bool (Scalar.occursIn a.toList b.toList != negated)
  | _, _ => boolean

def containment (op : CompareOp) (negated : Bool) (l r : Ty) : Except Fault Ty :=
  if r.kind == .string && l.kind != .string then mismatch op.symbol l r
  else if !r.kind.isContainer then do throw (.undefined (.containment (← r.name)))
  else .ok (contained negated l r)

def compareSingle (op : CompareOp) (l r : Ty) : Except Fault Ty :=
  if l.isNever || r.isNever then .ok .never
  else if l.isUnknown || r.isUnknown then .ok boolean
  else match op with
    | .eq => .ok (comparedTo .eq l r)
    | .ne => .ok (comparedTo .ne l r)
    | .is => .ok boolean
    | .isNot => .ok boolean
    | .isIn => containment op false l r
    | .notIn => containment op true l r
    | .other s => .error (.undefined (.operator s))
    | op => if l.kind.comparable r.kind then .ok (comparedTo op l r) else mismatch op.symbol l r

def compare (op : CompareOp) (l r : Ty) : Except Fault Ty :=
  if l.isNever || r.isNever then .ok .never
  else if l.isUnknown || r.isUnknown then .ok boolean
  else if l.isOneOf || r.isOneOf then distribute (compareSingle op) l r
  else compareSingle op l r

def badOperand {α : Type} (op : UnaryOp) (t : Ty) : Except Fault α := do
  throw (.undefined (.unaryOperand op.symbol (← t.name)))

def unaryScalar (op : UnaryOp) (s : Scalar) : Except Fault Ty :=
  match op, s.number?, s.int? with
  | .neg, some n, _ => .ok (.literal (.number n.negate))
  | .pos, some n, _ => .ok (.literal (.number n))
  | .invert, _, some n => .ok (int (Number.complement n))
  | _, _, _ => badOperand op (.literal s)

def unarySingle (op : UnaryOp) (t : Ty) : Except Fault Ty :=
  if t.isUnknown then .ok .unknown
  else if t.isNever then .ok .never
  else if !t.kind.isNumeric then badOperand op t
  else match t with
    | .literal s => unaryScalar op s
    | _ => .ok number

def unary (op : UnaryOp) (t : Ty) : Except Fault Ty :=
  match op, t with
  | .not, t => .ok ((t.truth?.map fun b => bool !b).getD boolean)
  | op, .oneOf ms => do return union (← ms.mapM (unarySingle op))
  | op, t => unarySingle op t

end Ty

end Casewise
