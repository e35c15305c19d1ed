import Casewise.Data.Slice
import Casewise.Source.Span
import Casewise.Text.Lines

namespace Casewise

structure SourceText where
  file : String
  lines : List (List Char)

namespace SourceText

def ofContent (content : String) (file : String) : SourceText := ⟨file, Text.wideLines content.toList⟩

def line? (s : SourceText) (n : Int) : Option (List Char) := if n < 1 then none else s.lines[(n - 1).toNat]?

def lineAt (s : SourceText) (n : Int) : List Char := (s.line? n).getD []

def partIn (s : SourceText) (span : Span) (n : Int) : List Char :=
  if n = span.startLine then fromPosition (s.lineAt n) (span.startCol - 1)
  else if n = span.endLine then between (s.lineAt n) 0 span.endCol
  else s.lineAt n

def spanChars (s : SourceText) (span : Span) : List Char :=
  if span.startLine = span.endLine then
    between (s.lineAt span.startLine) (span.startCol - 1) span.endCol
  else
    let count := (span.endLine - span.startLine + 1).toNat
    ['\n'].intercalate ((List.range count).map fun (i : Nat) => s.partIn span (span.startLine + i))

def spanText (s : SourceText) (span : Span) : String := String.ofList (s.spanChars span)

end SourceText

end Casewise
