import Casewise.Ty.Union

namespace Casewise.Ty

mutual

def assignable : Ty → Ty → Bool
  | .unknown, _ => true
  | .never, _ => true
  | .oneOf ms, e => e.isUnknown || same (.oneOf ms) e || allAssignable ms e
  | .array a, e => e.members.any fun
    | .array b => assignable a b
    | m => m.isUnknown
  | .tuple as, e => e.members.any fun
    | .tuple bs => eachAssignable as bs
    | .array b => allAssignable as b
    | m => m.isUnknown
  | .object fs, e => e.members.any fun
    | .object gs => gs.all fun g => fieldAssignable fs g.1 g.2
    | m => m.isUnknown
  | .function ps r, e => e.members.any fun
    | .function qs s => same (.function ps r) (.function qs s) ||
      (ps.length == qs.length && assignable r s)
    | m => m.isUnknown
  | .literal s, e => e.members.any fun
    | .primitive p => s.primitive == p
    | m => m.isUnknown || same (.literal s) m
  | .throws x, e => e.members.any fun
    | .throws y => y.isNone || x == y
    | m => m.isUnknown
  | t, e => e.members.any fun m => m.isUnknown || same t m
termination_by structural t => t

def allAssignable : List Ty → Ty → Bool
  | [], _ => true
  | t :: ts, e => assignable t e && allAssignable ts e
termination_by structural t => t

def eachAssignable : List Ty → List Ty → Bool
  | [], [] => true
  | a :: as, b :: bs => assignable a b && eachAssignable as bs
  | _, _ => false
termination_by structural t => t

def fieldAssignable : List (String × Ty) → String → Ty → Bool
  | [], _, want => want.isOptional
  | (k, t) :: fs, key, want => if k = key then assignable t want else fieldAssignable fs key want
termination_by structural t => t

end

end Casewise.Ty
