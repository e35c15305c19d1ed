import Casewise.Ty.Basic

/-!
The union of types in normal form: flat, without repetition, `never` dropped, `unknown` absorbing all,
`true` and `false` together replaced by `boolean`, and no literal beside its own primitive. Widening
replaces literals by their primitives at every depth.
-/

namespace Casewise.Ty

def parts : Ty → List Ty
  | .never => []
  | t => t.members

def foldBooleans (ts : List Ty) : List Ty :=
  if ts.any (isBool true) && ts.any (isBool false) && !ts.any (isPrimitive .boolean) then ts ++ [boolean]
  else ts

def absorbed (ts : List Ty) : Ty → Bool
  | .literal s => ts.any (isPrimitive s.primitive)
  | _ => false

def collapse : List Ty → Ty
  | [] => .never
  | [t] => t
  | ts => .oneOf ts

def union (ts : List Ty) : Ty :=
  let flat := distinctBy same (ts.flatMap parts)
  -- Before truth values fold: beside `unknown` nothing else counts.
  if flat.any isUnknown then .unknown
  else
    let folded := foldBooleans flat
    collapse (folded.filter fun t => !absorbed folded t)

def isOptional (t : Ty) : Bool := t.members.any (isPrimitive .undefined)

def stripUndefined : Ty → Ty
  | .oneOf ms => union (ms.filter fun m => !m.isPrimitive .undefined)
  | t => t

mutual

def widen : Ty → Ty
  | .literal s => .primitive s.primitive
  | .oneOf ms => union (widenAll ms)
  | .array e => .array (widen e)
  | .tuple es => .tuple (widenAll es)
  | .object fs => .object (widenFields fs)
  | t => t

def widenAll : List Ty → List Ty
  | [] => []
  | t :: ts => widen t :: widenAll ts

def widenFields : List (String × Ty) → List (String × Ty)
  | [] => []
  | (k, t) :: fs => (k, widen t) :: widenFields fs

end

end Casewise.Ty
