namespace Casewise

structure Span where
  file : String
  startLine : Int
  startCol : Int
  endLine : Int
  endCol : Int
  deriving DecidableEq, Repr, Inhabited

namespace Span

def point (file : String) (line col : Int) : Span := ⟨file, line, col, line, col⟩

def onLine (file : String) (line first last : Int) : Span := ⟨file, line, first, line, last⟩

def text (s : Span) : String := s.file ++ ":" ++ toString s.startLine ++ ":" ++ toString s.startCol

def startsBefore (a b : Span) : Bool :=
  a.startLine < b.startLine || (a.startLine == b.startLine && a.startCol ≤ b.startCol)

end Span

end Casewise
