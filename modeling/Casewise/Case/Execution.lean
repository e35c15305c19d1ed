import Casewise.Case.Plan
import Casewise.Case.Status
import Casewise.Sandbox.Exchange
import Casewise.Symbolic.Run
import Casewise.Symbolic.StopText
import Casewise.Ty.Assignable
import Casewise.Ty.Encoding

namespace Casewise

inductive FailureKind where
  | typeMismatch
  | thrown
  | timeout
  deriving DecidableEq, Repr

namespace FailureKind

def name : FailureKind → String
  | .typeMismatch => "type-mismatch"
  | .thrown => "thrown"
  | .timeout => "timeout"

def code : FailureKind → String
  | .typeMismatch => "E200"
  | .thrown => "E210"
  | .timeout => "E220"

end FailureKind

inductive Outcome where
  | success (returns : Ty) (params : List Ty)
  | failure (reason : FailureKind) (message : String)
  | skipped

structure CaseResult where
  directive : Directive
  label : String
  arguments : List CaseValue
  outcome : Option Outcome := none
  status : CaseStatus := .pending
  diagnostics : List Diagnostic := []

inductive AnalysisError where
  | unreadable
  | badAddress
  | badPattern
  | tooLong
  | badLimit
  | badTimeout
  | badReply (cause : DecodeError)
  | illegal (step : IllegalTransition)
  deriving DecidableEq, Repr

def AnalysisError.ofSample : SampleError → AnalysisError
  | .unsampleable _ => .badLimit
  | .tooLong => .tooLong
  | .badLimit => .badLimit

abbrev Execution := ExceptT AnalysisError (StateM Sandbox.Exchange)

namespace Execution

def orTooLong {α : Type} : Option α → Execution α
  | some a => return a
  | none => throw .tooLong

def ofSample {α : Type} : Except SampleError α → Execution α
  | .ok a => return a
  | .error e => throw (.ofSample e)

def ofReply {α : Type} : Except DecodeError α → Execution α
  | .ok a => return a
  | .error e => throw (.badReply e)

end Execution

structure CaseContext where
  module : Module
  source : String
  function : AnnotatedFunction
  mocks : MockRegistry
  config : AnalysisConfig
  directory : Option String := none

namespace CaseContext

def text (ctx : CaseContext) : SourceText := .ofContent ctx.source ctx.module.file

def chainOf (ctx : CaseContext) (c : Case) : MockChain :=
  let (registry, scope) := ctx.mocks.child MockRegistry.file
  (registry.registerAll scope c.mocks).chain scope

end CaseContext

namespace CaseResult

def start (c : Case) : CaseResult := { directive := c.directive, label := c.label, arguments := c.arguments }

def move (r : CaseResult) (status : CaseStatus) : Execution CaseResult :=
  match r.status.move r.label status with
  | .ok s => return { r with status := s }
  | .error e => throw (.illegal e)

def note (r : CaseResult) (ds : List Diagnostic) : CaseResult := { r with diagnostics := r.diagnostics ++ ds }

def skip (c : Case) : Execution CaseResult := do
  let r ← (start c).move .skipped
  return { r with outcome := some .skipped }

def fail (r : CaseResult) (reason : FailureKind) (message : String) (notes : List String := []) :
    Execution CaseResult :=
  let d := Diagnostic.error reason.code message r.directive.span
  { r.note [{ d with caseLabel := some r.label, notes := notes }] with
    outcome := some (.failure reason message) }.move .failed

def succeed (r : CaseResult) (returns : Ty) (params : List Ty) : Execution CaseResult :=
  { r with outcome := some (.success returns params) }.move .completed

def throw (r : CaseResult) (c : Case) (exception message : String) (params : List Ty) : Execution CaseResult :=
  if c.expectsThrow then r.succeed (.throws (some exception)) params
  else
    let detail := if message.isEmpty then exception else exception ++ ": " ++ message
    r.fail .thrown ("case '" ++ r.label ++ "' raised " ++ detail)

end CaseResult

namespace Case

def placeNote (text : SourceText) (span : Span) : String :=
  "at " ++ span.text ++ ": " ++ String.ofList (Text.trim (text.spanChars span))

def setting (ctx : CaseContext) (c : Case) : Symbolic.Setting :=
  { module := ctx.module
    mocks := ctx.chainOf c
    label := some c.label
    limits := ⟨ctx.config.recursionLimit, ctx.config.fixpointRounds⟩
    number := c.place }

def mayRaise (c : Case) (exception : String) : Diagnostic :=
  let d := Diagnostic.warning "W230" ("case '" ++ c.label ++ "' may raise " ++ exception) c.directive.span
  { d with caseLabel := some c.label }

def runSymbolic (ctx : CaseContext) (c : Case) (r : CaseResult) : Execution CaseResult := do
  let (result, warnings) :=
    Symbolic.run (c.setting ctx) ctx.function.name (c.arguments.map CaseValue.type)
  let r := r.note warnings
  match result with
  | .error (.undefined cause span) =>
    r.fail .typeMismatch ("type mismatch in case '" ++ c.label ++ "': " ++ cause.message)
      (span.toList.map (placeNote ctx.text))
  | .error stop => r.fail .thrown ("case '" ++ c.label ++ "' could not be interpreted") [stop.note]
  | .ok report =>
    if report.alwaysRaises then
      r.throw c (report.raises.head?.getD "") "raised on every path" report.params
    else
      (r.note ((distinctTexts report.raises).map c.mayRaise)).succeed report.returns report.params

def request (ctx : CaseContext) (c : Case) (args : List Datum) : Execution Sandbox.Request := do
  let payloads ← (ctx.chainOf c).mocks.mapM fun m => Execution.ofSample m.payload
  return ⟨ctx.source, ctx.module.file, ctx.function.name, args, payloads, ctx.directory⟩

def runConcrete (ctx : CaseContext) (c : Case) (r : CaseResult) : Execution CaseResult := do
  let args := c.arguments.filterMap CaseValue.datum?
  let request ← c.request ctx args
  match ← Sandbox.ask request with
  | .timedOut =>
    match ctx.config.timeout.brief with
    | some t => r.fail .timeout ("case '" ++ c.label ++ "' timed out after " ++ t ++ "s")
    | none => throw .badTimeout
  | .crashed reason => r.fail .thrown ("case '" ++ c.label ++ "' crashed: " ++ reason)
  | .raised exception message => r.throw c exception message (args.map Ty.ofDatum)
  | .returned returns params => do
    let returns ← Execution.ofReply (Ty.decode returns)
    let params ← params.mapM fun p => Execution.ofReply (Ty.decode p)
    r.succeed returns params

def validate (c : Case) (expected : CaseValue) (r : CaseResult) : Execution CaseResult := do
  match r.outcome with
  | some (.success returns _) =>
    -- A run on types does not tell literals apart.
    let wanted := if c.isSymbolic then (expectedType expected).widen else expectedType expected
    if returns.assignable wanted then return r
    let wantedName ← Execution.orTooLong wanted.name?
    let returnsName ← Execution.orTooLong returns.name?
    let d := Diagnostic.error "E400" "case outcome does not match declared @nudo:returns" c.directive.span
    return r.note [{ d with
      caseLabel := some c.label
      notes := ["expected " ++ wantedName ++ ", got " ++ returnsName] }]
  | _ => return r

def runUnskipped (ctx : CaseContext) (c : Case) : Execution CaseResult := do
  let r ← (CaseResult.start c).move .running
  -- The arguments are written down before anything is run.
  let _ ← Execution.orTooLong (c.arguments.mapM CaseValue.text?)
  match ctx.function.definition.params.fit ctx.function.name c.arguments with
  | .error e => r.fail .thrown ("case '" ++ c.label ++ "' raised TypeError: " ++ e.message)
  | .ok () =>
    let r ← if c.isSymbolic then c.runSymbolic ctx r else c.runConcrete ctx r
    match c.expected with
    | some expected => c.validate expected r
    | none => return r

def execute (ctx : CaseContext) (c : Case) : Execution CaseResult :=
  if c.skipped then CaseResult.skip c else c.runUnskipped ctx

end Case

end Casewise
