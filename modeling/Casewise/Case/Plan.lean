import Casewise.Config
import Casewise.Directive.Annotations
import Casewise.Directive.Argument
import Casewise.Mock

namespace Casewise

structure Case where
  label : String
  directive : Directive
  arguments : List CaseValue
  mocks : List Mock := []
  expected : Option CaseValue := none
  skipped : Bool := false
  place : Nat := 0

namespace Case

def isSymbolic (c : Case) : Bool := c.arguments.any (·.isSymbolic)

def expectsThrow (c : Case) : Bool :=
  match c.expected with
  | some (.concrete (.scalar (.string s))) => s == "throws"
  | some (.symbolic (.throws _)) => true
  | _ => false

def expectedType : CaseValue → Ty
  | .concrete (.scalar (.string s)) => if s == "throws" then .throws none else .text s
  | v => v.type

end Case

structure SampleLimits where
  count : Int
  rows : Int

def AnalysisConfig.samples (c : AnalysisConfig) : SampleLimits := ⟨c.sampleCount, c.maxSamples⟩

/-- A plan while directives are read: `last` holds the cases of the last case directive. -/
structure Planning where
  before : List Case := []
  last : List Case := []
  mocks : List Mock := []
  shared : Option CaseValue := none
  count : Nat := 0
  diagnostics : List Diagnostic := []

namespace Planning

def sampled (limits : SampleLimits) (c : Case) : Except SampleError (List Case) :=
  match Sampling.expand c.arguments limits.count limits.rows with
  | .ok rows => .ok (rows.zipIdx.map fun (row, i) =>
      { c with label := c.label ++ "#" ++ toString (i + 1), arguments := row.map .concrete })
  | .error (.unsampleable _) => .ok [c]
  | .error e => .error e

def labelOf (name : Option String) (count : Nat) : String :=
  match name with
  | some n => if n.isEmpty then "case " ++ toString count else n
  | none => "case " ++ toString count

def addCases (limits : SampleLimits) (p : Planning) (d : Directive) (args : List ArgumentText) :
    Except SampleError Planning := do
  let (values, errors) := ArgumentText.evaluateAll args
  let c : Case :=
    { label := labelOf d.name? (p.count + 1)
      directive := d
      arguments := values
      mocks := p.mocks
      skipped := d.kind == .skip }
  let cases ← if d.kind == .sample && c.isSymbolic then sampled limits c else pure [c]
  return { p with
    before := p.before ++ p.last
    last := cases
    count := p.count + 1
    diagnostics := p.diagnostics ++ errors }

def addMock (p : Planning) (symbol : String) (substitute : ArgumentText) : Planning :=
  let (v, errors) := substitute.evaluate
  { p with mocks := p.mocks ++ [⟨symbol, v⟩], diagnostics := p.diagnostics ++ errors }

def addExpectation (p : Planning) (expected : ArgumentText) : Planning :=
  let (v, errors) := expected.evaluate
  { p with
    -- Without cases before it, an expectation is one for all cases.
    shared := if p.last.isEmpty then some v else p.shared
    last := p.last.map fun c => { c with expected := some v }
    diagnostics := p.diagnostics ++ errors }

def add (limits : SampleLimits) (p : Planning) (d : Directive) : Except SampleError Planning :=
  match d.body with
  | .mock symbol substitute => .ok (p.addMock symbol substitute)
  | .returns expected => .ok (p.addExpectation expected)
  | .pure => .ok p
  | .skipFunction _ => .ok p
  | .oneCase _ args => p.addCases limits d args
  | .sample _ args => p.addCases limits d args
  | .skipCase _ args => p.addCases limits d args

def cases (p : Planning) : List Case :=
  (p.before ++ p.last).zipIdx.map fun (c, i) => { c with expected := c.expected.or p.shared, place := i }

end Planning

structure Plan where
  cases : List Case
  diagnostics : List Diagnostic

def Plan.ofDirectives (directives : List Directive) (limits : SampleLimits) : Except SampleError Plan := do
  let p ← directives.foldlM (fun p d => p.add limits d) ({} : Planning)
  return ⟨p.cases, p.diagnostics⟩

end Casewise
