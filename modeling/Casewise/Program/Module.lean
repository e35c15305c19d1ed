import Casewise.Program.Stmt
import Casewise.Source.Span
import Casewise.Text.Lines

namespace Casewise

structure Module where
  file : String
  functions : Bindings (FunctionDef Stmt) := []
  constants : Bindings Expr := []
  classes : List String := []
  imports : Bindings String := []
  lines : List (List Char) := []

namespace Module

def add (m : Module) : Stmt → Module
  | .function f => { m with functions := m.functions.set f.name f }
  | .asyncFunction f => { m with classes := m.classes ++ [f.name] }
  | .classDef _ name _ _ => { m with classes := m.classes ++ [name] }
  | .assign _ targets value =>
    { m with constants := (targets.filterMap Expr.id?).foldl (fun cs n => cs.set n value) m.constants }
  | .annotated _ (.name _ n) _ (some value) => { m with constants := m.constants.set n value }
  | .importing _ what => { m with imports := m.imports.update what.bindings }
  | _ => m

def ofProgram (p : Program) (file text : String) : Module :=
  p.body.foldl add { file, lines := if text.isEmpty then [] else Text.narrowLines text.toList }

def wholeChars (bytes : Nat) : List Char → Nat
  | [] => 0
  | c :: cs => if c.utf8Size ≤ bytes then 1 + wholeChars (bytes - c.utf8Size) cs else 0

/-- How many bytes come before an offset; a negative one counts from the end of the line. -/
def bytesBefore (offset : Int) (line : List Char) : Nat :=
  if 0 ≤ offset then offset.toNat else ((line.foldl (fun n c => n + c.utf8Size) 0 : Nat) + offset).toNat

def line? (m : Module) (n : Int) : Option (List Char) := if 1 ≤ n then m.lines[(n - 1).toNat]? else none

def column (m : Module) (line offset : Int) : Int :=
  match m.line? line with
  | some text => wholeChars (bytesBefore offset text) text + 1
  | none => offset + 1

def span (m : Module) (e : Extent) : Span :=
  let first := m.column e.line e.offset
  { file := m.file
    startLine := e.line
    startCol := first
    endLine := e.endLine
    endCol := if e.endOffset = 0 then first else m.column e.endLine e.endOffset - 1 }

end Module

end Casewise
