namespace Casewise

abbrev Bindings (α : Type) := List (String × α)

namespace Bindings

variable {α : Type}

def get? (name : String) : Bindings α → Option α
  | [] => none
  | (n, a) :: rest => if n = name then some a else get? name rest

def has (name : String) (bs : Bindings α) : Bool := (bs.get? name).isSome

/-- Binds a name; one that is bound already keeps its place. -/
def set (name : String) (a : α) : Bindings α → Bindings α
  | [] => [(name, a)]
  | (n, b) :: rest => if n = name then (n, a) :: rest else (n, b) :: set name a rest

def erase (name : String) : Bindings α → Bindings α
  | [] => []
  | (n, b) :: rest => if n = name then rest else (n, b) :: erase name rest

def update (bs new : Bindings α) : Bindings α := new.foldl (fun acc b => acc.set b.1 b.2) bs

def ofPairs (pairs : List (String × α)) : Bindings α := update [] pairs

def names (bs : Bindings α) : List String := bs.map (·.1)

@[simp] theorem get?_nil (name : String) : get? name ([] : Bindings α) = none := rfl

theorem get?_cons (name : String) (b : String × α) (bs : Bindings α) :
    get? name (b :: bs) = if b.1 = name then some b.2 else get? name bs := rfl

theorem set_cons (name : String) (a : α) (b : String × α) (bs : Bindings α) :
    set name a (b :: bs) = if b.1 = name then (b.1, a) :: bs else b :: set name a bs := rfl

@[simp] theorem get?_set_self (name : String) (a : α) (bs : Bindings α) :
    get? name (bs.set name a) = some a := by
  induction bs with
  | nil => simp [set, get?_cons]
  | cons b rest ih =>
    by_cases h : b.1 = name
    · simp [set_cons, get?_cons, h]
    · simp [set_cons, get?_cons, h, ih]

theorem get?_set_of_ne {name other : String} (h : other ≠ name) (a : α) (bs : Bindings α) :
    get? name (bs.set other a) = get? name bs := by
  induction bs with
  | nil => simp [set, get?_cons, h]
  | cons b rest ih =>
    by_cases hb : b.1 = other
    · simp [set_cons, get?_cons, hb, h]
    · by_cases hn : b.1 = name <;> simp [set_cons, get?_cons, hb, hn, ih, h.symm]

end Bindings

def insertBy {α : Type} (le : α → α → Bool) (a : α) : List α → List α
  | [] => [a]
  | b :: rest => if le a b then a :: b :: rest else b :: insertBy le a rest

def sortBy {α : Type} (le : α → α → Bool) (as : List α) : List α := as.foldr (insertBy le) []

def textLe (a b : String) : Bool := !decide (b < a)

def sortTexts (texts : List String) : List String := sortBy textLe texts

def distinctBy {α : Type} (same : α → α → Bool) : List α → List α
  | [] => []
  | a :: rest => a :: (distinctBy same rest).filter fun b => !same a b

def distinctTexts (texts : List String) : List String := distinctBy (· == ·) texts

end Casewise
