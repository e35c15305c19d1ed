import Casewise.Analysis
import Casewise.Text.Glob

namespace Casewise

def Glob.covers (path pattern : String) : Bool :=
  isMatch pattern path ||
    ("**/".toList.isPrefixOf pattern.toList && isMatch (String.ofList (pattern.toList.drop 3)) path)

namespace BuildConfig

def anyCovers? (path : String) : List Datum → Option Bool
  | [] => some false
  | p :: ps => do
    let pattern ← p.text?
    if Glob.covers path pattern then return true
    anyCovers? path ps

def selects? (c : BuildConfig) (path : String) : Option Bool := do
  if ← anyCovers? path c.excluded then return false
  anyCovers? path c.included

end BuildConfig

structure BuildSession where
  config : Config := {}
  warnings : List String := []
  results : Bindings AnalysisResult := []

inductive BuildStep where
  | unwanted
  | analysed (result : AnalysisResult)
  | failed (message : String) (diagnostics : List Diagnostic)

namespace BuildSession

def line (path : String) (d : Diagnostic) : String :=
  "[nudo] " ++ path ++ ":" ++ toString d.span.startLine ++ ":" ++ toString d.span.startCol ++ " " ++
    d.severity.name ++ ": " ++ d.message

def start (s : BuildSession) : BuildSession := { s with warnings := [], results := [] }

def wants? (s : BuildSession) (path text : String) : Option Bool :=
  (s.config.build.selects? path).map (· && Tag.isTagged text)

def noted (s : BuildSession) (ds : List Diagnostic) : List Diagnostic :=
  if s.config.build.failOnError then ds.takeWhile (!·.isError) else ds

def record (s : BuildSession) (path : String) (r : AnalysisResult) : BuildSession × BuildStep :=
  let noted := s.noted r.diagnostics
  let next := { s with
    results := s.results.set path r
    warnings := s.warnings ++ noted.map (line path) }
  match r.diagnostics.drop noted.length with
  | [] => (next, .analysed r)
  | d :: _ => (next, .failed (line path d) r.diagnostics)

def transform (s : BuildSession) (f : SourceFile) : Execution (BuildSession × BuildStep) := do
  match s.wants? f.name f.text with
  | none => throw .badPattern
  | some false => return (s, .unwanted)
  | some true => return s.record f.name (← Analysis.file f s.config.analysis)

def errorCount (s : BuildSession) : Nat := s.results.foldl (fun n r => n + r.2.errorCount) 0

def warningCount (s : BuildSession) : Nat := s.results.foldl (fun n r => n + r.2.warningCount) 0

def summary (s : BuildSession) : String :=
  "[nudo] Analysis complete: " ++ toString s.errorCount ++ " error(s), " ++ toString s.warningCount ++ " warning(s)"

def transformAll (s : BuildSession) : List SourceFile → Execution (BuildSession × Option String)
  | [] => return (s, none)
  | f :: fs => do
    let (next, step) ← s.transform f
    match step with
    | .failed message _ => return (next, some message)
    | _ => next.transformAll fs

end BuildSession

end Casewise
