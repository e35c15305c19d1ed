import Casewise.Signature

namespace Casewise

structure FunctionReport where
  name : String
  span : Span
  cases : List CaseResult
  isPure : Bool
  skipped : Bool := false

def FunctionReport.count (r : FunctionReport) (status : CaseStatus) : Nat :=
  r.cases.countP (·.status == status)

structure AnalysisResult where
  file : String
  signatures : Bindings Signature := []
  functions : List FunctionReport := []
  diagnostics : List Diagnostic := []

namespace AnalysisResult

def errorCount (r : AnalysisResult) : Nat := r.diagnostics.countP (·.isError)

def warningCount (r : AnalysisResult) : Nat := r.diagnostics.countP fun d => !d.isError

def hasErrors (r : AnalysisResult) : Bool := r.diagnostics.any (·.isError)

def add (r : AnalysisResult) (report : FunctionReport) (signature : Signature) (ds : List Diagnostic) :
    AnalysisResult :=
  { r with
    functions := r.functions ++ [report]
    signatures := r.signatures.set signature.name signature
    diagnostics := r.diagnostics ++ ds }

end AnalysisResult

structure SourceFile where
  name : String
  text : String
  parsed : Option (Except SyntaxError Program)
  directory : Option String := none

namespace Analysis

def ofSyntaxError (file : String) (e : SyntaxError) : AnalysisResult :=
  let line := (e.line.filter (· != 0)).getD 1
  let col := (e.offset.filter (· != 0)).getD 1
  { file, diagnostics := [.error "E101" ("syntax error: " ++ e.message) (.point file line col)] }

def fileMocks (directives : List Directive) : MockRegistry × List Diagnostic :=
  directives.foldl (fun (registry, errors) d =>
    match d.body with
    | .mock symbol substitute =>
      let (v, more) := substitute.evaluate
      (registry.register MockRegistry.file ⟨symbol, v⟩, errors ++ more)
    | _ => (registry, errors)) (MockRegistry.empty, [])

def skipOf? (f : AnnotatedFunction) : Option (Option ArgumentText) :=
  f.directives.findSome? fun d => match d.body with
    | .skipFunction declared => some declared
    | _ => none

def skipFunction (f : AnnotatedFunction) (plan : Plan) (declared : Option ArgumentText) :
    Execution (FunctionReport × Signature × List Diagnostic) := do
  let cases ← plan.cases.mapM CaseResult.skip
  let (returns, errors) := match declared with
    | some a =>
      let (v, errors) := a.evaluate
      (v.type, errors)
    | none => (.unknown, [])
  return (⟨f.name, f.span, cases, f.isPure, true⟩, .declared f returns, plan.diagnostics ++ errors)

def runFunction (ctx : CaseContext) (plan : Plan) :
    Execution (FunctionReport × Signature × List Diagnostic) := do
  let f := ctx.function
  let results ← plan.cases.mapM fun c => c.execute ctx
  let (signature, warnings) ← Execution.orTooLong (Signature.ofResults? f results)
  -- The text is not kept, but a signature without one ends the analysis.
  let _ ← Execution.orTooLong signature.text?
  return (⟨f.name, f.span, results, f.isPure, false⟩, signature,
    plan.diagnostics ++ results.flatMap (·.diagnostics) ++ warnings)

def function (ctx : CaseContext) : Execution (FunctionReport × Signature × List Diagnostic) := do
  let plan ← Execution.ofSample (Plan.ofDirectives ctx.function.directives ctx.config.samples)
  match skipOf? ctx.function with
  | some declared => skipFunction ctx.function plan declared
  | none => runFunction ctx plan

def program (p : Program) (file : SourceFile) (config : AnalysisConfig) : Execution AnalysisResult := do
  let found := Annotations.ofProgram p file.text file.name
  let (mocks, errors) := fileMocks found.fileMocks
  let start : AnalysisResult := { file := file.name, diagnostics := found.diagnostics ++ errors }
  found.functions.foldlM (fun result f => do
    let ctx : CaseContext := ⟨.ofProgram p file.name file.text, file.text, f, mocks, config, file.directory⟩
    let (report, signature, ds) ← function ctx
    return result.add report signature ds) start

def file (f : SourceFile) (config : AnalysisConfig) : Execution AnalysisResult := do
  let r ← match f.parsed with
    | none => throw .unreadable
    | some (.error e) => pure (ofSyntaxError f.name e)
    | some (.ok p) => program p f config
  return { r with diagnostics := Diagnostic.sort r.diagnostics }

end Analysis

end Casewise
