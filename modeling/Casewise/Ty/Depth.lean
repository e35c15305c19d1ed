import Casewise.Ty.Basic

namespace Casewise.Ty

mutual

def depth : Ty → Nat
  | .oneOf ms => depthAll ms
  | .array e => depth e + 1
  | .tuple es => depthAll es + 1
  | .object fs => depthFields fs + 1
  | .function ps r => max (depthAll ps) (depth r) + 1
  | _ => 0

def depthAll : List Ty → Nat
  | [] => 0
  | t :: ts => max (depth t) (depthAll ts)

def depthFields : List (String × Ty) → Nat
  | [] => 0
  | (_, t) :: fs => max (depth t) (depthFields fs)

end

end Casewise.Ty
