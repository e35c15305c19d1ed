import Casewise.Ty.OfDatum
import Casewise.TypeError

namespace Casewise

inductive CaseValue where
  | concrete (value : Datum)
  | symbolic (type : Ty)

namespace CaseValue

def type : CaseValue → Ty
  | .concrete d => .ofDatum d
  | .symbolic t => t

def isSymbolic : CaseValue → Bool
  | .concrete _ => false
  | .symbolic _ => true

def datum? : CaseValue → Option Datum
  | .concrete d => some d
  | .symbolic _ => none

def text? : CaseValue → Option String
  | .concrete d => d.write?
  | .symbolic t => t.name?

def mapNumbers {m : Type → Type} [Monad m] (f : Number → m Number) : CaseValue → m CaseValue
  | .concrete d => do return .concrete (← d.mapNumbers f)
  | .symbolic t => do return .symbolic (← t.mapNumbers f)

end CaseValue

end Casewise
