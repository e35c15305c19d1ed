import Casewise.Case.Execution
import Casewise.Ty.Merge

namespace Casewise

structure Signature where
  name : String
  params : List (String × Ty)
  returns : Ty
  cases : Nat

namespace Signature

def text? (s : Signature) : Option String := do
  let params ← s.params.mapM fun (n, t) => t.name?.map (n ++ ": " ++ ·)
  return "(" ++ ", ".intercalate params ++ ") -> " ++ (← s.returns.name?)

def namedText? (s : Signature) : Option String := s.text?.map (s.name ++ ·)

def typeData? (t : Ty) : Option (List (String × Datum)) := do
  return [("type", ← t.encode?), ("display", .text (← t.name?))]

def data? (s : Signature) : Option Datum := do
  let params ← s.params.mapM fun (n, t) => do return Datum.record (("name", .text n) :: (← typeData? t))
  return .record [("name", .text s.name), ("params", .list params), ("returns", .record (← typeData? s.returns)),
    ("cases", .int s.cases)]

def declared (f : AnnotatedFunction) (returns : Ty) : Signature :=
  ⟨f.name, f.definition.params.names.map (·, .unknown), returns, 0⟩

def successes (results : List CaseResult) : List (Ty × List Ty) :=
  results.filterMap fun r => match r.outcome with
    | some (.success returns params) => some (returns, params)
    | _ => none

def isThrows : Ty → Bool
  | .throws _ => true
  | _ => false

/-- What the successful cases have in common. A case that ends in an exception says nothing about the
result. -/
def merge? (f : AnnotatedFunction) (found : List (Ty × List Ty)) : Option Signature := do
  let names := f.definition.params.names
  let params ← names.zipIdx.mapM fun (n, i) => do
    return (n, ← Ty.merge? f.isPure (found.filterMap fun s => s.2[i]?))
  let returns := (found.map (·.1)).filter (!isThrows ·)
  let result ← if returns.isEmpty then some .never else Ty.merge? f.isPure returns
  return ⟨f.name, params, result, found.length⟩

def ofResults? (f : AnnotatedFunction) (results : List CaseResult) : Option (Signature × List Diagnostic) :=
  match successes results with
  | [] => some (declared f .unknown,
      [.warning "W500" ("no successful cases for '" ++ f.name ++ "'; signature is unknown") f.span])
  | found => (merge? f found).map (·, [])

end Signature

end Casewise
