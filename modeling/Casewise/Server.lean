import Casewise.Analysis
import Casewise.Source.Uri

namespace Casewise

namespace Server

structure Range where
  startLine : Int
  startCol : Int
  endLine : Int
  endCol : Int
  deriving DecidableEq, Repr

def Range.ofSpan (s : Span) : Range := ⟨s.startLine - 1, s.startCol - 1, s.endLine - 1, s.endCol⟩

structure Notice where
  code : String
  severity : Severity
  message : String
  range : Range
  deriving DecidableEq, Repr

def Notice.ofDiagnostic (d : Diagnostic) : Notice :=
  let head := "[" ++ d.code ++ "] " ++ d.message
  ⟨d.code, d.severity, "\n".intercalate (head :: d.notes), .ofSpan d.span⟩

structure Document where
  text : String
  result : AnalysisResult

def Document.notices (d : Document) : List Notice := d.result.diagnostics.map Notice.ofDiagnostic

structure Symbol where
  name : String
  detail : String
  range : Range

def wordAround (before after : List Char) : List Char :=
  (before.takeWhile Text.isWordChar).reverse ++ after.takeWhile Text.isWordChar

def wordAt (text : String) (line col : Int) : String :=
  if line < 0 || col < 0 then ""
  else
    match (Text.wideLines text.toList)[line.toNat]? with
    | none => ""
    | some cs =>
      if cs.length < col.toNat then ""
      else String.ofList (wordAround (cs.take col.toNat).reverse (cs.drop col.toNat))

namespace Document

def hover? (d : Document) (line col : Int) : Option (Option String) :=
  match d.result.signatures.get? (wordAt d.text line col) with
  | none => some none
  | some s => do
    let text := "```python\ndef " ++ (← s.namedText?) ++ "\n```"
    let count := if s.cases = 0 then "" else "\n\ninferred from " ++ toString s.cases ++ " case(s)"
    return some (text ++ count)

def symbols? (d : Document) : Option (List Symbol) :=
  d.result.functions.mapM fun f => do
    let s ← d.result.signatures.get? f.name
    return ⟨f.name, ← s.text?, .ofSpan f.span⟩

end Document

end Server

structure Server where
  config : Config := {}
  documents : Bindings Server.Document := []

namespace Server

def update (s : Server) (uri text : String) (parsed : Option (Except SyntaxError Program)) :
    Execution (Server × List Notice) := do
  let directory ← match Uri.target uri, parsed with
    | .malformed, _ => throw .badAddress
    | .elsewhere, _ => pure none
    | .file path, some (.ok _) =>
      if Uri.isImpossible path then throw .badAddress
      pure (some (Path.directory [] path))
    | .file path, _ => pure (some (Path.directory [] path))
  let r ← Analysis.file ⟨uri, text, parsed, directory⟩ s.config.analysis
  let d : Document := ⟨text, r⟩
  return ({ s with documents := s.documents.set uri d }, d.notices)

def close (s : Server) (uri : String) : Server := { s with documents := s.documents.erase uri }

def hover (s : Server) (uri : String) (line col : Int) : Execution (Option String) :=
  match s.documents.get? uri with
  | none => return none
  | some d => Execution.orTooLong (d.hover? line col)

def symbols (s : Server) (uri : String) : Execution (List Symbol) :=
  match s.documents.get? uri with
  | none => return []
  | some d => Execution.orTooLong d.symbols?

end Server

end Casewise
