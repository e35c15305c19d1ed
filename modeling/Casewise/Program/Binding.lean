import Casewise.Program.Expr

/-!
Binding the arguments of a call to the parameters of a function. What fills each parameter is settled
first; defaults are evaluated after that, in the order of the result.
-/

namespace Casewise

inductive Filling (α ε : Type) where
  | given (value : α)
  | default (expr : ε)
  | rest (values : List α)
  | keywordRest (values : Bindings α)

structure Filled (α ε : Type) where
  entries : Bindings (Filling α ε)
  missing : Option ArityError

namespace Params

variable {α ε : Type}

def fillKeyword (p : Params ε) (function : String) (state : Bindings (Filling α ε) × Bindings α)
    (keyword : String × α) : Except ArityError (Bindings (Filling α ε) × Bindings α) :=
  let (bound, extra) := state
  let (name, value) := keyword
  if bound.has name then .error (.repeated function name)
  else if p.names.contains name || p.keywordOnly.any (·.1 == name) then
    .ok (bound.set name (.given value), extra)
  else if p.keywordRest.isSome then .ok (bound, extra.set name value)
  else .error (.unexpected function name)

/-- The defaults of positional parameters; they belong to the last ones. -/
def positionalDefaults (p : Params ε) : Bindings ε :=
  Bindings.ofPairs ((p.names.drop (p.names.length - p.defaults.length)).zip p.defaults)

def fillDefaults (p : Params ε) (bound : Bindings (Filling α ε)) : Bindings (Filling α ε) :=
  p.names.foldl (fun bound name =>
    match p.positionalDefaults.get? name with
    | some e => if bound.has name then bound else bound.set name (.default e)
    | none => bound) bound

/-- Fills the parameters that only a keyword fills, up to the first one that is missing. -/
def fillKeywordOnly (function : String) (bound : Bindings (Filling α ε)) :
    List (String × Option ε) → Filled α ε
  | [] => ⟨bound, none⟩
  | (name, default) :: rest =>
    if bound.has name then fillKeywordOnly function bound rest
    else match default with
      | some e => fillKeywordOnly function (bound.set name (.default e)) rest
      | none => ⟨bound, some (.missingKeyword function name)⟩

def fillRests (p : Params ε) (surplus : List α) (extra : Bindings α) (bound : Bindings (Filling α ε)) :
    Bindings (Filling α ε) :=
  let bound := match p.rest with
    | some name => bound.set name (.rest surplus)
    | none => bound
  match p.keywordRest with
  | some name => bound.set name (.keywordRest extra)
  | none => bound

def fill (p : Params ε) (function : String) (args : List α) (keywords : Bindings α) :
    Except ArityError (Filled α ε) := do
  if p.names.length < args.length && p.rest.isNone then
    throw (.surplus function p.names.length args.length)
  let positional := Bindings.ofPairs (p.names.zip (args.map Filling.given))
  let (bound, extra) ← keywords.foldlM (p.fillKeyword function) (positional, [])
  let missing := p.names.filter fun n => !bound.has n && !p.positionalDefaults.has n
  if !missing.isEmpty then throw (.missing function missing)
  let filled := fillKeywordOnly function (p.fillDefaults bound) p.keywordOnly
  -- The defaults before a missing parameter are evaluated all the same.
  match filled.missing with
  | some e => return ⟨filled.entries, some e⟩
  | none => return ⟨p.fillRests (args.drop p.names.length) extra filled.entries, none⟩

def fit (p : Params ε) (function : String) (args : List α) : Except ArityError Unit := do
  let filled ← p.fill function args []
  match filled.missing with
  | some e => throw e
  | none => return ()

end Params

structure Packing (m : Type → Type) (α ε : Type) where
  default : ε → m α
  rest : List α → α
  keywordRest : Bindings α → α

def Packing.value {m : Type → Type} [Monad m] {α ε : Type} (k : Packing m α ε) : Filling α ε → m α
  | .given a => return a
  | .default e => k.default e
  | .rest as => return k.rest as
  | .keywordRest bs => return k.keywordRest bs

def Packing.values {m : Type → Type} [Monad m] {α ε : Type} (k : Packing m α ε) :
    Bindings (Filling α ε) → m (Bindings α)
  | [] => return []
  | (name, f) :: rest => do
    let a ← k.value f
    return (name, a) :: (← values k rest)

end Casewise
