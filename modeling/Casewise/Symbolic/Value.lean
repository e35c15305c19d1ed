import Casewise.Ty.Union

namespace Casewise

inductive Value where
  | type (t : Ty)
  | external (written path : String)
  | function (name : String) (arity : Nat)
  | builtin (name : String)
  /-- A method of a receiver; `target` is the variable that holds the receiver. -/
  | method (receiver : Ty) (name : String) (target : Option String)
  | closure (id arity : Nat)
  deriving Inhabited

abbrev Env := Bindings Value

namespace Value

def unknown : Value := .type .unknown

def type? : Value → Option Ty
  | .type (.throws _) => none
  | .type t => some t
  | _ => none

def functionType (arity : Nat) : Ty := .function (List.replicate arity .unknown) .unknown

def asType : Value → Ty
  | .type (.throws _) => .unknown
  | .type t => t
  | .external .. => .unknown
  | .function _ n => functionType n
  | .builtin _ => functionType 0
  | .method .. => functionType 0
  | .closure _ n => functionType n

def rawType : Value → Ty
  | .type t => t
  | v => v.asType

def same : Value → Value → Bool
  | .type a, .type b => a.same b
  | .external w p, .external v q => w == v && p == q
  | .function a _, .function b _ => a == b
  | .builtin a, .builtin b => a == b
  | .method r n t, .method s k u => r.same s && n == k && t == u
  | .closure a _, .closure b _ => a == b
  | _, _ => false

def widen (v : Value) : Value :=
  match v.type? with
  | some t => .type t.widen
  | none => v

end Value

namespace Env

def same : Env → Env → Bool
  | [], [] => true
  | (n, v) :: a, (k, w) :: b => n == k && v.same w && same a b
  | _, _ => false

/-- What a name stands for after paths meet: the common value, or every type it may have. -/
def mergeValues (vs : List Value) : Value :=
  match vs with
  | [] => .unknown
  | v :: rest => if rest.all (·.same v) then v else .type (.union ((v :: rest).map Value.asType))

/-- The environment after paths meet. A name bound on some of them keeps what it has there. -/
def merge (envs : List Env) : Env :=
  match envs with
  | [env] => env
  | envs =>
    (distinctTexts (envs.flatMap Bindings.names)).map fun n =>
      (n, mergeValues (envs.filterMap (Bindings.get? n)))

def widenChanged (before after : Env) : Env :=
  after.map fun (n, v) =>
    match before.get? n with
    | some old => if old.same v then (n, v) else (n, v.widen)
    | none => (n, v.widen)

end Env

end Casewise
