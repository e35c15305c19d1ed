import Casewise.Data.Bindings
import Casewise.Source.Text

namespace Casewise

inductive Severity where
  | error
  | warning
  deriving DecidableEq, Repr

def Severity.name : Severity → String
  | .error => "error"
  | .warning => "warning"

structure Diagnostic where
  severity : Severity
  code : String
  message : String
  span : Span
  caseLabel : Option String := none
  notes : List String := []
  deriving DecidableEq, Repr

namespace Diagnostic

def error (code message : String) (span : Span) : Diagnostic := ⟨.error, code, message, span, none, []⟩

def warning (code message : String) (span : Span) : Diagnostic := ⟨.warning, code, message, span, none, []⟩

def isError (d : Diagnostic) : Bool := d.severity == .error

def sort (ds : List Diagnostic) : List Diagnostic := sortBy (fun a b => a.span.startsBefore b.span) ds

def summary (ds : List Diagnostic) : String :=
  toString ds.length ++ " error(s): " ++ "; ".intercalate (ds.map (·.message))

structure Palette where
  error : String
  warning : String
  bold : String
  frame : String
  reset : String

namespace Palette

def plain : Palette := ⟨"", "", "", "", ""⟩

def ansi : Palette := ⟨"\x1b[1;31m", "\x1b[1;33m", "\x1b[1m", "\x1b[1;34m", "\x1b[0m"⟩

def severity (p : Palette) : Severity → String
  | .error => p.error
  | .warning => p.warning

def framed (p : Palette) (text : String) : String := p.frame ++ text ++ p.reset

end Palette

def padLeft (width : Nat) (text : String) : String :=
  String.ofList (List.replicate (width - text.length) ' ') ++ text

def excerpt (p : Palette) (d : Diagnostic) (line : List Char) : List String :=
  let span := d.span
  let shown := "  " ++ p.framed (padLeft 4 (toString span.startLine) ++ " |") ++ " " ++ String.ofList line
  if span.startLine = span.endLine then
    let gap := String.ofList (List.replicate (span.startCol - 1).toNat ' ')
    let marks := String.ofList (List.replicate (max 1 (span.endCol - span.startCol + 1)).toNat '^')
    [shown, "  " ++ p.framed "   |" ++ " " ++ gap ++ p.severity d.severity ++ marks ++ p.reset]
  else [shown]

def caseLine (p : Palette) (d : Diagnostic) : List String :=
  match d.caseLabel with
  | some label => if label = "" then [] else ["  " ++ p.framed "=" ++ " case: " ++ label]
  | none => []

def render (p : Palette) (sources : List SourceText) (d : Diagnostic) : String :=
  let header := p.severity d.severity ++ d.severity.name ++ "[" ++ d.code ++ "]" ++ p.reset ++
    p.bold ++ ": " ++ d.message ++ p.reset
  let place := "  " ++ p.framed "-->" ++ " " ++ d.span.text
  let bar := "  " ++ p.framed "   |"
  let source := (sources.filter (·.file == d.span.file)).getLast?.bind (·.line? d.span.startLine)
  let body := (source.map (excerpt p d)).getD []
  let notes := d.notes.map fun n => "  " ++ p.framed "=" ++ " note: " ++ n
  "\n".intercalate ([header, place, bar] ++ body ++ caseLine p d ++ notes)

end Diagnostic

end Casewise
