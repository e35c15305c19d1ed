import Casewise.Directive.Tag
import Casewise.Program.Stmt

/-!
Directives of a program. A function owns the comment lines directly above it and the lines of its
docstring. Mocks on other comment lines hold for the whole file, and other directives there are ignored
with a warning.
-/

namespace Casewise

structure AnnotatedFunction where
  definition : FunctionDef Stmt
  span : Span
  directives : List Directive

namespace AnnotatedFunction

def name (f : AnnotatedFunction) : String := f.definition.name

def isPure (f : AnnotatedFunction) : Bool := f.directives.any (·.kind == .pure)

def ofKind (f : AnnotatedFunction) (kind : DirectiveKind) : List Directive :=
  f.directives.filter (·.kind == kind)

end AnnotatedFunction

structure Annotations where
  functions : List AnnotatedFunction := []
  fileMocks : List Directive := []
  diagnostics : List Diagnostic := []

namespace Annotations

def append (a b : Annotations) : Annotations :=
  ⟨a.functions ++ b.functions, a.fileMocks ++ b.fileMocks, a.diagnostics ++ b.diagnostics⟩

def concat (as : List Annotations) : Annotations := as.foldr append {}

end Annotations

namespace FunctionDef

def firstLine (f : FunctionDef Stmt) : Nat := f.decorators.foldl (fun n d => min n d.pos.line) f.pos.line

def nameSpan (f : FunctionDef Stmt) (file : String) : Span :=
  .onLine file f.pos.line (f.pos.offset + 1) (f.pos.offset + 4 + f.name.length)

def docstringLines (f : FunctionDef Stmt) : List Nat :=
  match f.body with
  | .expr pos (.constant _ (.scalar (.string _))) :: _ => List.range' pos.line (pos.endLine + 1 - pos.line)
  | _ => []

end FunctionDef

def linesAbove (comments : List Nat) : Nat → List Nat
  | 0 => []
  | n + 1 => if n ∈ comments then linesAbove comments n ++ [n] else []

namespace Program

def commentLines (p : Program) : List Nat :=
  sortBy (fun a b => decide (a ≤ b)) (distinctBy (· == ·) ((p.comments.filter (·.isAlone)).map (·.line)))

def blockOf (p : Program) (f : FunctionDef Stmt) : List Nat :=
  linesAbove p.commentLines f.firstLine ++ f.docstringLines

def topFunctions (p : Program) : List (FunctionDef Stmt × Bool) :=
  p.body.filterMap fun
    | .function f => some (f, false)
    | .asyncFunction f => some (f, true)
    | _ => none

end Program

namespace Annotations

structure Reading where
  file : String
  lines : List (List Char)

namespace Reading

def ofText (text file : String) : Reading := ⟨file, Text.wideLines text.toList⟩

def textAt (r : Reading) (n : Nat) : List Char := r.lines[n - 1]?.getD []

def line (r : Reading) (n : Nat) : Found := .ofLine (r.textAt n) r.file n

def function (r : Reading) (p : Program) (f : FunctionDef Stmt) (isAsync : Bool) : Annotations :=
  let found := Found.concat ((p.blockOf f).map r.line)
  let span := f.nameSpan r.file
  if found.directives.isEmpty then { diagnostics := found.errors }
  else if isAsync then
    let skipped := Diagnostic.warning "W101" ("async function '" ++ f.name ++ "' is not analyzed") span
    { diagnostics := found.errors ++ [skipped] }
  else { functions := [⟨f, span, found.directives⟩], diagnostics := found.errors }

def ignored (d : Directive) : Diagnostic :=
  .warning "W102" (d.kind.tag ++ " outside a function's directive block is ignored") d.span

def free (r : Reading) (n : Nat) : Annotations :=
  let found := r.line n
  { fileMocks := found.directives.filter (·.kind == .mock)
    diagnostics := found.errors ++ (found.directives.filter (·.kind != .mock)).map ignored }

end Reading

def ofReading (r : Reading) (p : Program) : Annotations :=
  -- A line counts as claimed also if its function has no directives.
  let claimed := p.topFunctions.flatMap fun (f, _) => p.blockOf f
  let owned := p.topFunctions.map fun (f, isAsync) => r.function p f isAsync
  let rest := (p.commentLines.filter fun n => !claimed.contains n).map r.free
  concat (owned ++ rest)

def ofProgram (p : Program) (text file : String) : Annotations := ofReading (.ofText text file) p

end Annotations

end Casewise
