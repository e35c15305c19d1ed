import Casewise.Program.Stmt
import Casewise.Symbolic.Sequence
import Casewise.Symbolic.Value

namespace Casewise

def Expr.fieldName? : Expr → Except Fault (Option String)
  | .constant _ .null => .ok (some "None")
  | .constant _ (.scalar s) => do return some (← orTooLong s.plain?)
  | .constant _ (.other _ spelling) => .ok (some spelling)
  | _ => .ok none

namespace Pattern

def isIrrefutable : Pattern → Bool
  | .capture none _ => true
  | _ => false

def isStar : Pattern → Bool
  | .star _ => true
  | _ => false

def fieldType (subject : Ty) (key : Expr) : Except Fault Ty :=
  match subject with
  | .object fields => do
    match ← key.fieldName? with
    | some n => return (Bindings.get? n fields).getD .unknown
    | none => return .unknown
  | _ => .ok .unknown

def itemTypes (subject : Ty) (patterns : List Pattern) : Except Fault (List Ty) :=
  match subject.sameShape with
  | .tuple items =>
    if items.length == patterns.length && !patterns.any isStar then .ok items else alike
  | _ => alike
where
  alike : Except Fault (List Ty) := do
    let item ← subject.itemsOf
    return patterns.map fun _ => item

def bindName (name : Option String) (t : Ty) (env : Env) : Env :=
  match name with
  | some n => env.set n (.type t)
  | none => env

mutual

def bind (p : Pattern) (subject : Ty) (env : Env) : Except Fault Env :=
  match p with
  | .value _ => .ok env
  | .single _ => .ok env
  | .capture inner name => do return bindName name subject (← bindOption inner subject env)
  | .alternatives ps => bindEach ps (ps.map fun _ => subject) env
  | .sequence ps => do bindEach ps (← itemTypes subject ps) env
  | .star name => .ok (bindName name (.array .unknown) env)
  | .mapping entries rest => do return bindName rest subject (← bindEntries entries subject env)
  | .object _ ps => bindEach ps (ps.map fun _ => .unknown) env
termination_by structural p

def bindOption (p : Option Pattern) (subject : Ty) (env : Env) : Except Fault Env :=
  match p with
  | none => .ok env
  | some p => bind p subject env
termination_by structural p

def bindEach (ps : List Pattern) (subjects : List Ty) (env : Env) : Except Fault Env :=
  match ps, subjects with
  | p :: ps, t :: ts => do bindEach ps ts (← bind p t env)
  | _, _ => .ok env
termination_by structural ps

def bindEntries (entries : List (Expr × Pattern)) (subject : Ty) (env : Env) : Except Fault Env :=
  match entries with
  | [] => .ok env
  | (key, p) :: rest => do
    let t ← fieldType subject key
    bindEntries rest subject (← bind p t env)
termination_by structural entries

end

end Pattern

end Casewise
