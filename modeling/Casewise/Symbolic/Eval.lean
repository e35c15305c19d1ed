import Casewise.Symbolic.Call
import Casewise.Symbolic.Narrowing

namespace Casewise

def Constant.type : Constant → Ty
  | .null => .null
  | .scalar s => .literal s
  | .other .. => .unknown

def Expr.innerPos : Expr → Extent
  | .starred _ e => e.pos
  | e => e.pos

namespace Symbolic

def inScope? {α : Type} (env : Option Env) (act : Nat → Run α) : Run (Option α) := do
  match env with
  | some env => return some (← act (← newScope env))
  | none => return none

def narrowed (test : Expr) (scope : Nat) : Run Narrowed := do liftFault (test.narrow (← envOf scope))

def decisive : LogicalOp → Bool
  | .and => false
  | .or => true

/-- The part of an operand that is the result when the next one is not reached, if its truth is not known. -/
def deciding (op : LogicalOp) (t : Ty) : Except Fault (List Ty) :=
  match t.truth? with
  | none => do return [← t.truthPart (decisive op)]
  | some _ => .ok []

def chained (results : List Ty) : Ty :=
  match results, Ty.union results with
  | [_], t => t
  | _, .literal s => .literal s
  | _, .never => .never
  | _, _ => .boolean

def storeItem (container key value : Ty) (name : String) (scope : Nat) : Run Unit := do
  match container with
  | .object fields =>
    match key.text? with
    | some k => assignName scope name (.type (.record (Bindings.set k value fields)))
    | none => return ()
  | .array e => assignName scope name (.type (.array (.union [e, value])))
  | _ => return ()

def isTuple : Ty → Bool
  | .tuple _ => true
  | _ => false

def unpack (module : Module) (pos : Extent) (t : Ty) (starred : List Bool) : Run (List Ty) := do
  match t.sameShape with
  | .tuple items => located module pos (liftFault (Ty.unpackedItems items starred))
  | t => return Ty.unpackedAlike (← liftFault t.itemsOf) starred

def sliceBound (t : Ty) : Option (Option Int) := t.index?.map some

namespace Machine

mutual

def eval (m : Machine) (e : Expr) (scope : Nat) : Run Value :=
  located m.module e.pos (match e with
    | .constant _ c => do return .type (← marked c.type)
    | .name _ id => m.lookup id scope
    | .binary _ op l r => do
      let left ← m.forced (m.eval l scope) l.pos
      let right ← m.forced (m.eval r scope) r.pos
      return .type (← computed (Ty.binary op left right))
    | .unary _ op e => do
      let t ← m.forced (m.eval e scope) e.pos
      return .type (← computed (Ty.unary op t))
    | .logical _ op es => do return .type (.union (← m.evalLogical op es scope))
    | .comparison _ l rs => do
      let left ← m.forced (m.eval l scope) l.pos
      return .type (chained (← m.evalCompared left rs scope))
    | .conditional _ t b o => do
      let truth := (← m.forced (m.eval t scope) t.pos).truth?
      let ends := (← narrowed t scope).given truth
      let whenTrue ← inScope? ends.whenTrue fun inner => m.forced (m.eval b inner) b.pos
      let whenFalse ← inScope? ends.whenFalse fun inner => m.forced (m.eval o inner) o.pos
      return .type (.union (whenTrue.toList ++ whenFalse.toList))
    | .call p f as ks => do
      let callee ← m.eval f scope
      let (args, loose) ← m.evalArgs as scope
      let (keywords, spread) ← m.evalKeywords ks scope
      m.call callee args (Bindings.ofPairs keywords) (loose || spread) p scope
    | .member p v attr => do
      match ← m.eval v scope with
      | .external written path => return .external (written ++ "." ++ attr) (path ++ "." ++ attr)
      | value =>
        match value.type? with
        | some t => m.memberOf t attr v.id? p
        | none => return .unknown
    | .subscript _ v (.slice _ lower upper step) => do
      let container ← m.forced (m.eval v scope) v.pos
      let first ← m.evalBound lower scope
      let last ← m.evalBound upper scope
      let stride ← m.evalBound step scope
      let bounds := do return (← first, ← last, ← stride)
      return .type (← liftFault (container.sliced bounds))
    | .subscript p v i => do
      let container ← m.forced (m.eval v scope) v.pos
      let index ← m.forced (m.eval i scope) i.pos
      return .type (← m.itemOf container index p)
    | .slice .. => return .unknown
    | .tuple _ es => do return .type (← m.evalTuple false [] es scope)
    | .list _ es => do return .type (.array (.union (← m.evalItems es scope)))
    | .set _ es => do return .type (.array (.union (← m.evalItems es scope)))
    | .dict _ es => do return .type (← m.evalEntries [] true es scope)
    | .template _ es => do
      m.evalParts es scope
      return .type .string
    | .formatted .. => return .unknown
    | .comprehension _ e gs => do
      let inner ← copyScope scope
      match ← m.evalGenerators gs inner with
      | none => return .type (.array .never)
      | some inner => return .type (.array (← m.forced (m.eval e inner) e.pos))
    | .dictComprehension _ k v gs => do
      let inner ← copyScope scope
      match ← m.evalGenerators gs inner with
      | none => return .type (.array .never)
      | some inner =>
        let _ ← m.forced (m.eval k inner) k.pos
        let _ ← m.forced (m.eval v inner) v.pos
        return .unknown
    | .lambda _ params body => do
      -- Unlike a nested function, it keeps the variables as they are here.
      let captured ← copyScope scope
      newClosure ⟨"<lambda>", params, [.returns body.pos (some body)], captured⟩
    | .assign _ target v => do
      let value ← m.eval v scope
      assignName scope target value
      return value
    | .starred _ v => m.eval v scope
    | .other .. => return .unknown)
termination_by structural e

def evalLogical (m : Machine) (op : LogicalOp) (es : List Expr) (scope : Nat) : Run (List Ty) := do
  match es with
  | [] => return []
  | [e] => return [← m.forced (m.eval e scope) e.pos]
  | e :: rest =>
    let t ← m.forced (m.eval e scope) e.pos
    if t.truth? == some (decisive op) then return [t]
    else
      let part ← liftFault (deciding op t)
      let others ← inScope? ((← narrowed e scope).passing op) (m.evalLogical op rest)
      return part ++ others.getD []
termination_by structural es

def evalCompared (m : Machine) (left : Ty) (rest : List (CompareOp × Expr)) (scope : Nat) : Run (List Ty) := do
  match rest with
  | [] => return []
  | (op, e) :: rest =>
    let right ← m.forced (m.eval e scope) e.pos
    let result ← liftFault (Ty.compare op left right)
    return result :: (← m.evalCompared right rest scope)
termination_by structural rest

def evalArgs (m : Machine) (es : List Expr) (scope : Nat) : Run (List Value × Bool) := do
  match es with
  | [] => return ([], false)
  | e :: rest =>
    let v ← m.eval e scope
    let (args, loose) ← m.evalArgs rest scope
    if e.isStarred then return (args, true) else return (v :: args, loose)
termination_by structural es

def evalKeywords (m : Machine) (ks : List (Keyword Expr)) (scope : Nat) : Run (Env × Bool) := do
  match ks with
  | [] => return ([], false)
  | ⟨name, e⟩ :: rest =>
    let v ← m.eval e scope
    let (args, loose) ← m.evalKeywords rest scope
    match name with
    | some n => return ((n, v) :: args, loose)
    | none => return (args, true)
termination_by structural ks

def evalBound (m : Machine) (e : Option Expr) (scope : Nat) : Run (Option (Option Int)) := do
  match e with
  | none => return some none
  | some e => return sliceBound (← m.forced (m.eval e scope) e.pos)
termination_by structural e

/-- A tuple of items, some of them spread. After a spread one of unknown length (`loose`) it is an array. -/
def evalTuple (m : Machine) (loose : Bool) (before : List Ty) (es : List Expr) (scope : Nat) : Run Ty := do
  match es with
  | [] => return if loose then .array (.union before) else .tuple before
  | e :: rest =>
    let t ← m.forced (m.eval e scope) e.innerPos
    if !e.isStarred then m.evalTuple loose (before ++ [t]) rest scope
    else if loose then do
      let item ← liftFault t.itemsOf
      m.evalTuple true (before ++ [item]) rest scope
    else match t.sameShape with
      | .tuple items => m.evalTuple false (before ++ items) rest scope
      | t => do
        let item ← liftFault t.itemsOf
        m.evalTuple true (before ++ [item]) rest scope
termination_by structural es

def evalItems (m : Machine) (es : List Expr) (scope : Nat) : Run (List Ty) := do
  match es with
  | [] => return []
  | e :: rest =>
    let t ← m.forced (m.eval e scope) e.innerPos
    let item ← liftFault (if e.isStarred then t.itemsOf else .ok t)
    return item :: (← m.evalItems rest scope)
termination_by structural es

def evalEntries (m : Machine) (fields : Bindings Ty) (known : Bool) (es : List (Option Expr × Expr))
    (scope : Nat) : Run Ty := do
  match es with
  | [] => return if known then .record fields else .unknown
  | (none, v) :: rest =>
    match ← m.forced (m.eval v scope) v.pos with
    | .object more => m.evalEntries (fields.update more) known rest scope
    | _ => m.evalEntries fields false rest scope
  | (some k, v) :: rest =>
    -- The value comes first, also in what is reported.
    let value ← m.forced (m.eval v scope) v.pos
    let key ← m.forced (m.eval k scope) k.pos
    match key.text? with
    | some n => m.evalEntries (fields.set n value) known rest scope
    | none => m.evalEntries fields false rest scope
termination_by structural es

def evalParts (m : Machine) (es : List Expr) (scope : Nat) : Run Unit := do
  match es with
  | [] => return ()
  | .formatted _ e _ :: rest =>
    let _ ← m.forced (m.eval e scope) e.pos
    m.evalParts rest scope
  | _ :: rest => m.evalParts rest scope
termination_by structural es

/-- The scope inside the loops of a comprehension, unless a condition never holds. -/
def evalGenerators (m : Machine) (gs : List (Generator Expr)) (scope : Nat) : Run (Option Nat) := do
  match gs with
  | [] => return some scope
  | ⟨target, source, conditions⟩ :: rest =>
    let t ← m.forced (m.eval source scope) source.pos
    let item ← liftFault t.itemsOf
    m.assign target (.type item) scope
    match ← m.evalConditions conditions scope with
    | none => return none
    | some inner => m.evalGenerators rest inner
termination_by structural gs

def evalConditions (m : Machine) (es : List Expr) (scope : Nat) : Run (Option Nat) := do
  match es with
  | [] => return some scope
  | e :: rest =>
    let _ ← m.eval e scope
    match (← narrowed e scope).whenTrue with
    | none => return none
    | some env =>
      let inner ← newScope env
      m.evalConditions rest inner
termination_by structural es

def assign (m : Machine) (target : Expr) (v : Value) (scope : Nat) : Run Unit := do
  match target with
  | .name _ id => assignName scope id v
  | .tuple p ts =>
    let t ← m.force v p
    let types ← unpack m.module p t (ts.map Expr.isStarred)
    m.assignEach ts types scope
  | .list p ts =>
    let t ← m.force v p
    let types ← unpack m.module p t (ts.map Expr.isStarred)
    m.assignEach ts types scope
  | .subscript p c i =>
    let value ← m.force v p
    let container ← m.forced (m.eval c scope) c.pos
    let key ← m.forced (m.eval i scope) i.pos
    if isTuple container then throw (.undefined .itemAssignment (some (m.module.span p)))
    else match c.id? with
      | some name => storeItem container key value name scope
      | none => return ()
  | .member _ c _ =>
    let _ ← m.eval c scope
    return ()
  | .starred p t =>
    let item ← m.force v p
    m.assign t (.type (.array item)) scope
  | _ => return ()
termination_by structural target

def assignEach (m : Machine) (targets : List Expr) (types : List Ty) (scope : Nat) : Run Unit := do
  match targets, types with
  | .starred _ target :: rest, t :: types =>
    m.assign target (.type t) scope
    m.assignEach rest types scope
  | target :: rest, t :: types =>
    m.assign target (.type t) scope
    m.assignEach rest types scope
  | _, _ => return ()
termination_by structural targets

end

end Machine

end Symbolic

end Casewise
