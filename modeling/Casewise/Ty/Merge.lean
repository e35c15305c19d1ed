import Casewise.Ty.Depth
import Casewise.Ty.Name

/-!
Merging the types that several runs contributed into one. Objects merge field by field, a field missing
in some of them becoming optional; arrays merge into one array; tuples of the same length merge place by
place. An ordinary merge widens literals first, an exact one keeps them.
-/

namespace Casewise.Ty

def fields? : Ty → Option (List (String × Ty))
  | .object fs => some fs
  | _ => none

def element? : Ty → Option Ty
  | .array e => some e
  | _ => none

def elements? : Ty → Option (List Ty)
  | .tuple es => some es
  | _ => none

def isContainer : Ty → Bool
  | .object _ => true
  | .array _ => true
  | .tuple _ => true
  | _ => false

def alternatives? (ts : List Ty) : Option (List Ty) := (ts.mapM sortedMembers?).map List.flatten

def fieldKeys (objects : List (List (String × Ty))) : List String :=
  sortTexts (distinctTexts (objects.flatMap Bindings.names))

def mergeField (merge : List Ty → Option Ty) (objects : List (List (String × Ty))) (key : String) :
    Option (String × Ty) := do
  let present := objects.filterMap (Bindings.get? key)
  let merged ← merge present
  return (key, if present.length < objects.length then union [merged, undefined] else merged)

def mergeObjects (merge : List Ty → Option Ty) (objects : List (List (String × Ty))) : Option Ty :=
  ((fieldKeys objects).mapM (mergeField merge objects)).map .object

def columns (length : Nat) (tuples : List (List Ty)) : List (List Ty) :=
  (List.range length).map fun i => tuples.filterMap (·[i]?)

def mergeTuples (merge : List Ty → Option Ty) (tuples : List (List Ty)) (length : Nat) : Option Ty :=
  ((columns length (tuples.filter (·.length == length))).mapM merge).map .tuple

def mergeContainers (merge : List Ty → Option Ty) (flat : List Ty) : Option (List Ty) := do
  let objects := flat.filterMap fields?
  let arrays := flat.filterMap element?
  let tuples := flat.filterMap elements?
  let object ← if objects.isEmpty then some [] else (mergeObjects merge objects).map ([·])
  let array ← if arrays.isEmpty then some [] else (merge arrays).map ([.array ·])
  let lengths := distinctBy (· == ·) (tuples.map List.length)
  let merged ← lengths.mapM (mergeTuples merge tuples)
  return object ++ array ++ merged

/-- Merges containers down to a depth; below it there are none left to merge. -/
def mergeTo : Nat → List Ty → Option Ty
  | 0, ts => (alternatives? ts).map union
  | n + 1, ts => do
    let flat ← alternatives? ts
    let merged ← mergeContainers (mergeTo n) flat
    return union (flat.filter (fun t => !t.isContainer) ++ merged)

def merge? (exact : Bool) (ts : List Ty) : Option Ty :=
  let ts := if exact then ts else ts.map widen
  mergeTo (depthAll ts) ts

end Casewise.Ty
