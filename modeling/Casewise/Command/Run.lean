import Casewise.Build
import Casewise.Command.Options
import Casewise.Data.Json
import Casewise.Project
import Casewise.Stub
import Casewise.Text.Style

namespace Casewise.Command

structure Session where
  exchange : Sandbox.Exchange
  output : String := ""
  errors : String := ""
  written : Bindings String := []

inductive Stop where
  | failed
  | usage (cause : UsageError)
  | analysis (cause : AnalysisError)
  | config (cause : ConfigError)
  | notFile (path : List String)
  deriving DecidableEq, Repr

def Stop.status : Stop → Nat
  | .usage _ => 2
  | _ => 1

abbrev Run := ExceptT Stop (StateM Session)

namespace Run

def print (line : String) : Run Unit := modify fun s => { s with output := s.output ++ Text.unstyled line ++ "\n" }

def printError (line : String) : Run Unit := modify fun s => { s with errors := s.errors ++ Text.unstyled line ++ "\n" }

def analyse {α : Type} (work : Execution α) : Run α := do
  let s ← get
  let (r, exchange) := work.run s.exchange
  set { s with exchange := exchange }
  match r with
  | .ok a => return a
  | .error e => throw (.analysis e)

def orTooLong {α : Type} : Option α → Run α
  | some a => return a
  | none => throw (.analysis .tooLong)

end Run

open Run

def existing (p : Project) (path : String) : Run ProjectFile :=
  let parts := p.resolve path
  match p.file? parts with
  | some f => return f
  | none => throw (.usage (if p.isThere parts then .notFile path else .noFile path))

def loadConfig (p : Project) (path : List String) : Run Config := do
  match p.file? path with
  | none => throw (.notFile path)
  | some f =>
    let found := match f.settings with
      | .ok document => Config.ofDocument document
      | .error message => .error (.malformed message)
    match found with
    | .ok c => return c
    | .error e =>
      if e.isReported then
        printError ("error: invalid " ++ Config.fileName ++ ": " ++ e.message)
        throw .failed
      throw (.config e)

def nearestConfig (p : Project) (start : String) : Run Config :=
  match p.configPath? start with
  | some path => loadConfig p path
  | none => return {}

def printResult (r : AnalysisResult) (locations : Bool) : Run Unit := do
  print (r.file ++ ":")
  if r.signatures.isEmpty then print "  (no annotated functions)"
  for f in r.functions do
    let text ← Run.orTooLong ((r.signatures.get? f.name).bind Signature.namedText?)
    print ("  " ++ text ++ (if locations then "  [" ++ f.span.text ++ "]" else "") ++
      (if f.skipped then "  (skipped)" else ""))

def diagnosticData (d : Diagnostic) : Datum :=
  .record [("severity", .text d.severity.name), ("code", .text d.code), ("message", .text d.message),
    ("line", .int d.span.startLine), ("column", .int d.span.startCol), ("case", d.caseLabel.elim .null .text)]

def resultData? (r : AnalysisResult) : Option Datum := do
  let signatures ← r.signatures.mapM fun (_, s) => s.data?
  return .record [("file", .text r.file), ("signatures", .list signatures),
    ("diagnostics", .list (r.diagnostics.map diagnosticData))]

def stubPath (o : InferOptions) (file : String) : String :=
  let name := Path.withEnding ".pyi" file
  match o.directory with
  | some d => Path.within d name
  | none => Path.beside file name

def writeStub (p : Project) (o : InferOptions) (r : AnalysisResult) : Run Unit := do
  let path := stubPath o r.file
  let text ← Run.orTooLong (Stub.text? r)
  modify fun s => { s with written := s.written.set (Path.text (p.resolve path)) text }
  if !o.json then print ("wrote " ++ path)

def inferFile (p : Project) (config : Config) (o : InferOptions) (earlier : List SourceText) (file : String)
    (content : ProjectFile) : Run (AnalysisResult × Option Datum × List SourceText) := do
  let source := Project.source file (p.resolve file) content
  let r ← analyse (Analysis.file source config.analysis)
  let shown := earlier ++ [SourceText.ofContent source.text file]
  let data ← if o.json then some <$> Run.orTooLong (resultData? r) else pure none
  if !o.json then
    for d in r.diagnostics do printError (d.render .ansi shown)
    printResult r o.locations
  if o.emitStubs then writeStub p o r
  return (r, data, shown)

def runInfer (p : Project) (o : InferOptions) : Run Unit := do
  let files ← o.files.mapM fun f => do return (f, ← existing p f)
  let config ← match o.config with
    | some path => do
      let _ ← existing p path
      loadConfig p (p.resolve path)
    | none => nearestConfig p (o.files.head?.getD ".")
  let mut failed := false
  let mut payload : List Datum := []
  let mut shown : List SourceText := []
  for (file, content) in files do
    let (r, data, sources) ← inferFile p config o shown file content
    failed := failed || r.hasErrors
    payload := payload ++ data.toList
    shown := sources
  if o.json then print (← Run.orTooLong (Json.layout? (.list payload)))
  if failed then throw .failed

def programFiles (p : Project) (directory : List String) : List (List String) → List SourceFile × Option (List String)
  | [] => ([], none)
  | path :: rest =>
    match p.file? (directory ++ path) with
    | none => ([], some (directory ++ path))
    | some f =>
      let (files, noFile) := programFiles p directory rest
      (Project.source ("/".intercalate path) (directory ++ path) f :: files, noFile)

def runCheck (p : Project) (path : String) (failOnError : Bool) : Run Unit := do
  let directory := p.resolve path
  if p.isFile directory then throw (.usage (.notDirectory path))
  if !p.isThere directory then throw (.usage (.noFile path))
  let config ← nearestConfig p path
  let build := { config.build with failOnError := config.build.failOnError || failOnError }
  let (files, noFile) := programFiles p directory (p.programs directory)
  let (session, failure) ← analyse (BuildSession.transformAll { config := { config with build } } files)
  match failure, noFile with
  | some message, _ =>
    printError message
    throw .failed
  | none, some path => throw (.notFile path)
  | none, none =>
    session.warnings.forM printError
    print session.summary

def run (p : Project) : Command → Run Unit
  | .infer o => runInfer p o
  | .check path failOnError => runCheck p path failOnError

def execute (p : Project) (words : List String) (answers : List Sandbox.Answer) : Option Stop × Session :=
  let start : Session := { exchange := ⟨answers, []⟩ }
  match ofWords words with
  | .error e => (some (.usage e), start)
  | .ok c =>
    match (run p c).run start with
    | (.ok (), s) => (none, s)
    | (.error stop, s) => (some stop, s)

/-- Runs a command again and again, each time with one more answer, until all its requests have one or the rounds
are over. -/
def converse (p : Project) (words : List String) (answer : Sandbox.Request → Sandbox.Answer) :
    Nat → List Sandbox.Answer → Option Stop × Session
  | 0, answers => execute p words answers
  | n + 1, answers =>
    let (stop, session) := execute p words answers
    match session.exchange.requests[answers.length]? with
    | some r => converse p words answer n (answers ++ [answer r])
    | none => (stop, session)

end Casewise.Command
