import Casewise.Program.Expr
import Casewise.Text.Blank

namespace Casewise

inductive Pattern where
  | value (value : Expr)
  | single (value : Constant)
  | sequence (patterns : List Pattern)
  | mapping (entries : List (Expr × Pattern)) (rest : Option String)
  | object (cls : Expr) (patterns : List Pattern)
  | star (name : Option String)
  | capture (pattern : Option Pattern) (name : Option String)
  | alternatives (patterns : List Pattern)

instance : Inhabited Pattern := ⟨.star none⟩

structure ImportName where
  name : String
  localName : Option String

inductive Import where
  | modules (names : List ImportName)
  | members (module : String) (level : Nat) (names : List ImportName)

structure FunctionDef (σ : Type) where
  pos : Extent
  name : String
  params : Params Expr
  body : List σ
  decorators : List Expr
  annotations : List Expr
  deriving Inhabited

structure Handler (σ : Type) where
  exception : Option Expr
  name : Option String
  body : List σ

structure Arm (σ : Type) where
  pattern : Pattern
  guard : Option Expr
  body : List σ

inductive Stmt where
  | expr (pos : Extent) (value : Expr)
  | assign (pos : Extent) (targets : List Expr) (value : Expr)
  | augmented (pos : Extent) (target : Expr) (op : BinaryOp) (value : Expr)
  | annotated (pos : Extent) (target annotation : Expr) (value : Option Expr)
  | returns (pos : Extent) (value : Option Expr)
  | branch (pos : Extent) (test : Expr) (body otherwise : List Stmt)
  | forLoop (pos : Extent) (target source : Expr) (body otherwise : List Stmt)
  | whileLoop (pos : Extent) (test : Expr) (body otherwise : List Stmt)
  | raising (pos : Extent) (exception cause : Option Expr)
  | trying (pos : Extent) (body : List Stmt) (handlers : List (Handler Stmt)) (otherwise final : List Stmt)
  | asserting (pos : Extent) (test : Expr) (message : Option Expr)
  | breaking (pos : Extent)
  | continuing (pos : Extent)
  | function (definition : FunctionDef Stmt)
  | asyncFunction (definition : FunctionDef Stmt)
  | classDef (pos : Extent) (name : String) (exprs : List Expr) (body : List Stmt)
  | withBlock (pos : Extent) (items : List (Expr × Option Expr)) (body : List Stmt)
  | matching (pos : Extent) (subject : Expr) (arms : List (Arm Stmt))
  | delete (pos : Extent) (targets : List Expr)
  | importing (pos : Extent) (what : Import)
  | other (pos : Extent) (exprs : List Expr) (body : List Stmt)

instance : Inhabited Stmt := ⟨.other default [] []⟩

structure Comment where
  line : Nat
  before : String

def Comment.isAlone (c : Comment) : Bool := c.before.toList.all Text.isBlank

structure Program where
  body : List Stmt
  comments : List Comment := []

structure SyntaxError where
  message : String
  line : Option Int
  offset : Option Int

namespace Import

def root (path : String) : String := String.ofList (path.toList.takeWhile (· != '.'))

/-- The path of a name imported from a module; a relative module leaves no dots in front. -/
def memberPath (module : String) (level : Nat) (name : String) : String :=
  let dots := String.ofList (List.replicate level '.')
  String.ofList ((dots ++ module ++ "." ++ name).toList.dropWhile (· == '.'))

def bindings : Import → Bindings String
  | .modules names => Bindings.ofPairs (names.map fun n =>
      match n.localName with
      | some a => (a, n.name)
      | none => (root n.name, root n.name))
  | .members module level names => Bindings.ofPairs (names.map fun n =>
      (n.localName.getD n.name, memberPath module level n.name))

end Import

end Casewise
