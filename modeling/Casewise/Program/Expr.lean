import Casewise.Operator.Typing

namespace Casewise

/-- Where a piece of a program stands. Lines count from one, offsets from zero in bytes. -/
structure Extent where
  line : Nat
  offset : Nat
  endLine : Nat
  endOffset : Nat
  deriving DecidableEq, Repr, Inhabited

inductive Constant where
  | null
  | scalar (value : Scalar)
  | other (cls spelling : String)

structure Params (ε : Type) where
  positionalOnly : List String := []
  ordinary : List String := []
  defaults : List ε := []
  rest : Option String := none
  keywordOnly : List (String × Option ε) := []
  keywordRest : Option String := none
  annotations : List ε := []
  deriving Inhabited

def Params.names {ε : Type} (p : Params ε) : List String := p.positionalOnly ++ p.ordinary

structure Keyword (ε : Type) where
  name : Option String
  value : ε

structure Generator (ε : Type) where
  target : ε
  source : ε
  conditions : List ε

inductive LogicalOp where
  | and
  | or
  deriving DecidableEq, Repr

inductive Expr where
  | constant (pos : Extent) (value : Constant)
  | name (pos : Extent) (id : String)
  | binary (pos : Extent) (op : BinaryOp) (left right : Expr)
  | unary (pos : Extent) (op : UnaryOp) (operand : Expr)
  | logical (pos : Extent) (op : LogicalOp) (values : List Expr)
  | comparison (pos : Extent) (left : Expr) (rest : List (CompareOp × Expr))
  | conditional (pos : Extent) (test body otherwise : Expr)
  | call (pos : Extent) (function : Expr) (args : List Expr) (keywords : List (Keyword Expr))
  | member (pos : Extent) (value : Expr) (attr : String)
  | subscript (pos : Extent) (value index : Expr)
  | slice (pos : Extent) (lower upper step : Option Expr)
  | tuple (pos : Extent) (items : List Expr)
  | list (pos : Extent) (items : List Expr)
  | set (pos : Extent) (items : List Expr)
  | dict (pos : Extent) (entries : List (Option Expr × Expr))
  | template (pos : Extent) (parts : List Expr)
  | formatted (pos : Extent) (value : Expr) (spec : Option Expr)
  | comprehension (pos : Extent) (item : Expr) (generators : List (Generator Expr))
  | dictComprehension (pos : Extent) (key value : Expr) (generators : List (Generator Expr))
  | lambda (pos : Extent) (params : Params Expr) (body : Expr)
  | assign (pos : Extent) (target : String) (value : Expr)
  | starred (pos : Extent) (value : Expr)
  | other (pos : Extent) (parts : List Expr)

namespace Expr

instance : Inhabited Expr := ⟨.other default []⟩

def pos : Expr → Extent
  | .constant p _ | .name p _ | .binary p .. | .unary p .. | .logical p .. | .comparison p ..
  | .conditional p .. | .call p .. | .member p .. | .subscript p .. | .slice p .. | .tuple p _
  | .list p _ | .set p _ | .dict p _ | .template p _ | .formatted p .. | .comprehension p ..
  | .dictComprehension p .. | .lambda p .. | .assign p .. | .starred p _ | .other p _ => p

def isStarred : Expr → Bool
  | .starred .. => true
  | _ => false

def id? : Expr → Option String
  | .name _ id => some id
  | _ => none

def dotted? : Expr → Option String
  | .name _ id => some id
  | .member _ v a => (dotted? v).map (· ++ "." ++ a)
  | _ => none

end Expr

end Casewise
