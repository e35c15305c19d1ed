import Casewise.Program.Literal
import Casewise.Program.Stmt

/-!
Programs from the data of their syntax trees. A node is a record: `_` holds its class, `at` its place, and
the other fields its parts; parts that are absent or empty may be left out. The spelling of a constant that is
only known by its class is put into the tree first.
-/

namespace Casewise.Tree

def natAt (ds : List Datum) (i : Nat) : Nat := ((ds[i]?.bind Datum.int?).getD 0).toNat

def extent (d : Datum) : Extent :=
  match d.itemsAt "at" with
  | [] => ⟨1, 0, 1, 0⟩
  | ds => ⟨natAt ds 0, natAt ds 1, natAt ds 2, natAt ds 3⟩

def constant : Datum → Constant
  | .null => .null
  | .scalar s => .scalar s
  | d => .other (d.textAt "other") (d.textAt "spelling")

mutual

def spelled (lines : List (List Char)) : Datum → Datum
  | .list ds => .list (spelledItems lines ds)
  | .record fs =>
    match Bindings.get? "value" fs with
    | some (.record [("other", .scalar (.string cls))]) =>
      let text := Literal.spelling cls (Literal.piece lines (extent (.record fs)))
      .record (Bindings.set "value" (.record [("other", .text cls), ("spelling", .text text)]) fs)
    | _ => .record (spelledFields lines fs)
  | d => d

def spelledItems (lines : List (List Char)) : List Datum → List Datum
  | [] => []
  | d :: ds => spelled lines d :: spelledItems lines ds

def spelledFields (lines : List (List Char)) : List (String × Datum) → List (String × Datum)
  | [] => []
  | (k, d) :: fs => (k, spelled lines d) :: spelledFields lines fs

end

def binaryOp : String → BinaryOp
  | "Add" => .add
  | "Sub" => .sub
  | "Mult" => .mul
  | "Div" => .div
  | "FloorDiv" => .floorDiv
  | "Mod" => .mod
  | "Pow" => .pow
  | "BitAnd" => .bitAnd
  | "BitOr" => .bitOr
  | "BitXor" => .bitXor
  | "LShift" => .shiftLeft
  | "RShift" => .shiftRight
  | _ => .other "@"

def compareOp : String → CompareOp
  | "Eq" => .eq
  | "NotEq" => .ne
  | "Lt" => .lt
  | "LtE" => .le
  | "Gt" => .gt
  | "GtE" => .ge
  | "Is" => .is
  | "IsNot" => .isNot
  | "In" => .isIn
  | _ => .notIn

def unaryOp : String → UnaryOp
  | "USub" => .neg
  | "UAdd" => .pos
  | "Invert" => .invert
  | _ => .not

def exprClasses : List String :=
  ["BoolOp", "NamedExpr", "BinOp", "UnaryOp", "Lambda", "IfExp", "Dict", "Set", "ListComp", "SetComp", "DictComp",
    "GeneratorExp", "Await", "Yield", "YieldFrom", "Compare", "Call", "FormattedValue", "JoinedStr", "Constant",
    "Attribute", "Subscript", "Starred", "Name", "List", "Tuple", "Slice"]

def stmtClasses : List String :=
  ["FunctionDef", "AsyncFunctionDef", "ClassDef", "Return", "Delete", "Assign", "AugAssign", "AnnAssign", "For",
    "AsyncFor", "While", "If", "With", "AsyncWith", "Match", "Raise", "Try", "TryStar", "Assert", "Import",
    "ImportFrom", "Global", "Nonlocal", "Expr", "Pass", "Break", "Continue"]

def argNames (d : Datum) (name : String) : List String := (d.itemsAt name).map (·.textAt "arg")

def importNames (d : Datum) : List ImportName :=
  (d.itemsAt "names").map fun a => ⟨a.textAt "name", a.textAt? "asname"⟩

mutual

def expr : Nat → Datum → Expr
  | 0, d => .other (extent d) []
  | n + 1, d =>
    let p := extent d
    let one (name : String) : Expr := expr n ((d.field? name).getD .null)
    let opt (name : String) : Option Expr := (d.field? name).map (expr n)
    let many (name : String) : List Expr := (d.itemsAt name).map (expr n)
    match d.textAt "_" with
    | "Constant" => .constant p (constant ((d.field? "value").getD .null))
    | "Name" => .name p (d.textAt "id")
    | "BinOp" => .binary p (binaryOp (d.textAt "op")) (one "left") (one "right")
    | "UnaryOp" => .unary p (unaryOp (d.textAt "op")) (one "operand")
    | "BoolOp" => .logical p (if d.textAt "op" == "And" then .and else .or) (many "values")
    | "Compare" =>
      .comparison p (one "left") (((d.itemsAt "ops").map fun o => compareOp (o.text?.getD "")).zip (many "comparators"))
    | "IfExp" => .conditional p (one "test") (one "body") (one "orelse")
    | "Call" => .call p (one "func") (many "args") ((d.itemsAt "keywords").map fun k =>
        ⟨k.textAt? "arg", expr n ((k.field? "value").getD .null)⟩)
    | "Attribute" => .member p (one "value") (d.textAt "attr")
    | "Subscript" => .subscript p (one "value") (one "slice")
    | "Slice" => .slice p (opt "lower") (opt "upper") (opt "step")
    | "Tuple" => .tuple p (many "elts")
    | "List" => .list p (many "elts")
    | "Set" => .set p (many "elts")
    | "Dict" => .dict p (((d.itemsAt "keys").map fun k => if k.isNull then none else some (expr n k)).zip (many "values"))
    | "JoinedStr" => .template p (many "values")
    | "FormattedValue" => .formatted p (one "value") (opt "format_spec")
    | "ListComp" => .comprehension p (one "elt") ((d.itemsAt "generators").map (generator n))
    | "SetComp" => .comprehension p (one "elt") ((d.itemsAt "generators").map (generator n))
    | "GeneratorExp" => .comprehension p (one "elt") ((d.itemsAt "generators").map (generator n))
    | "DictComp" => .dictComprehension p (one "key") (one "value") ((d.itemsAt "generators").map (generator n))
    | "Lambda" => .lambda p (params n ((d.field? "args").getD .null)) (one "body")
    | "NamedExpr" => .assign p (((d.field? "target").map (·.textAt "id")).getD "") (one "value")
    | "Starred" => .starred p (one "value")
    | _ => .other p (d.children.flatMap (exprsIn n))

def generator : Nat → Datum → Generator Expr
  | 0, _ => ⟨default, default, []⟩
  | n + 1, d =>
    ⟨expr n ((d.field? "target").getD .null), expr n ((d.field? "iter").getD .null), (d.itemsAt "ifs").map (expr n)⟩

def params : Nat → Datum → Params Expr
  | 0, _ => {}
  | n + 1, d =>
    let defaults := (d.itemsAt "kw_defaults").map fun e => if e.isNull then none else some (expr n e)
    let all := d.itemsAt "posonlyargs" ++ d.itemsAt "args" ++ d.itemsAt "kwonlyargs" ++
      (d.field? "vararg").toList ++ (d.field? "kwarg").toList
    { positionalOnly := argNames d "posonlyargs"
      ordinary := argNames d "args"
      defaults := (d.itemsAt "defaults").map (expr n)
      rest := (d.field? "vararg").map (·.textAt "arg")
      keywordOnly := (argNames d "kwonlyargs").zip defaults
      keywordRest := (d.field? "kwarg").map (·.textAt "arg")
      annotations := all.filterMap fun a => (a.field? "annotation").map (expr n) }

def exprsIn : Nat → Datum → List Expr
  | 0, _ => []
  | n + 1, d =>
    if exprClasses.contains (d.textAt "_") then [expr n d]
    else if stmtClasses.contains (d.textAt "_") then []
    else d.children.flatMap (exprsIn n)

end

def pattern : Nat → Datum → Pattern
  | 0, _ => .star none
  | n + 1, d =>
    let many (name : String) : List Pattern := (d.itemsAt name).map (pattern n)
    match d.textAt "_" with
    | "MatchValue" => .value (expr n ((d.field? "value").getD .null))
    | "MatchSingleton" => .single (constant ((d.field? "value").getD .null))
    | "MatchSequence" => .sequence (many "patterns")
    | "MatchMapping" => .mapping (((d.itemsAt "keys").map (expr n)).zip (many "patterns")) (d.textAt? "rest")
    | "MatchClass" => .object (expr n ((d.field? "cls").getD .null)) (many "patterns" ++ many "kwd_patterns")
    | "MatchStar" => .star (d.textAt? "name")
    | "MatchAs" => .capture ((d.field? "pattern").map (pattern n)) (d.textAt? "name")
    | _ => .alternatives (many "patterns")

mutual

def stmt : Nat → Datum → Stmt
  | 0, d => .other (extent d) [] []
  | n + 1, d =>
    let p := extent d
    let one (name : String) : Expr := expr n ((d.field? name).getD .null)
    let opt (name : String) : Option Expr := (d.field? name).map (expr n)
    let many (name : String) : List Expr := (d.itemsAt name).map (expr n)
    let block (name : String) : List Stmt := (d.itemsAt name).map (stmt n)
    match d.textAt "_" with
    | "Expr" => .expr p (one "value")
    | "Assign" => .assign p (many "targets") (one "value")
    | "AugAssign" => .augmented p (one "target") (binaryOp (d.textAt "op")) (one "value")
    | "AnnAssign" => .annotated p (one "target") (one "annotation") (opt "value")
    | "Return" => .returns p (opt "value")
    | "If" => .branch p (one "test") (block "body") (block "orelse")
    | "For" => .forLoop p (one "target") (one "iter") (block "body") (block "orelse")
    | "While" => .whileLoop p (one "test") (block "body") (block "orelse")
    | "Raise" => .raising p (opt "exc") (opt "cause")
    | "Try" => .trying p (block "body") ((d.itemsAt "handlers").map (handler n)) (block "orelse") (block "finalbody")
    | "Assert" => .asserting p (one "test") (opt "msg")
    | "Break" => .breaking p
    | "Continue" => .continuing p
    | "FunctionDef" => .function (functionDef n d)
    | "AsyncFunctionDef" => .asyncFunction (functionDef n d)
    | "ClassDef" => .classDef p (d.textAt "name")
        (["decorator_list", "bases", "keywords"].flatMap fun name => (d.itemsAt name).flatMap (exprsIn n))
        (block "body")
    | "With" => .withBlock p ((d.itemsAt "items").map fun i =>
        (expr n ((i.field? "context_expr").getD .null), (i.field? "optional_vars").map (expr n))) (block "body")
    | "Match" => .matching p (one "subject") ((d.itemsAt "cases").map (arm n))
    | "Delete" => .delete p (many "targets")
    | "Import" => .importing p (.modules (importNames d))
    | "ImportFrom" =>
      .importing p (.members (d.textAt "module") (((d.field? "level").bind Datum.int?).getD 0).toNat (importNames d))
    | _ => .other p (d.children.flatMap (exprsIn n)) (d.children.flatMap (stmtsIn n))

def handler : Nat → Datum → Handler Stmt
  | 0, _ => ⟨none, none, []⟩
  | n + 1, d => ⟨(d.field? "type").map (expr n), d.textAt? "name", (d.itemsAt "body").map (stmt n)⟩

def arm : Nat → Datum → Arm Stmt
  | 0, _ => ⟨.star none, none, []⟩
  | n + 1, d =>
    ⟨pattern n ((d.field? "pattern").getD .null), (d.field? "guard").map (expr n), (d.itemsAt "body").map (stmt n)⟩

def functionDef : Nat → Datum → FunctionDef Stmt
  | 0, _ => default
  | n + 1, d =>
    { pos := extent d
      name := d.textAt "name"
      params := params n ((d.field? "args").getD .null)
      body := (d.itemsAt "body").map (stmt n)
      decorators := (d.itemsAt "decorator_list").map (expr n)
      annotations := ((d.field? "returns").map (expr n)).toList }

def stmtsIn : Nat → Datum → List Stmt
  | 0, _ => []
  | n + 1, d =>
    if stmtClasses.contains (d.textAt "_") then [stmt n d]
    else if exprClasses.contains (d.textAt "_") then []
    else d.children.flatMap (stmtsIn n)

end

def comments (d : Datum) : List Comment :=
  (d.itemsAt "comments").filterMap fun c =>
    match c.items with
    | [line, before] => some ⟨(line.int?.getD 0).toNat, before.text?.getD ""⟩
    | _ => none

def parsed? (text : String) (d : Datum) : Option (Except SyntaxError Program) :=
  match d.field? "tree", d.field? "syntax_error" with
  | some t, _ =>
    let t := spelled (Text.narrowLines text.toList) t
    some (.ok ⟨(t.itemsAt "body").map (stmt (2 * t.depth + 2)), comments d⟩)
  | none, some e =>
    some (.error ⟨e.textAt "msg", (e.field? "lineno").bind Datum.int?, (e.field? "offset").bind Datum.int?⟩)
  | none, none => none

end Casewise.Tree
