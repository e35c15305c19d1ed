import Casewise.Data.Slice
import Casewise.Operator.Typing

namespace Casewise

def Fault.of {α : Type} (cause : TypeError) : Except Fault α := .error (.undefined cause)

namespace Ty

def eachMember (t : Ty) (rule : Ty → Except Fault Ty) : Except Fault Ty := do
  match t with
  | .oneOf ms => return union (← ms.mapM rule)
  | t => rule t

def itemsOfSingle (t : Ty) : Except Fault Ty :=
  match t with
  | .unknown => .ok .unknown
  | .never => .ok .never
  | .array e => .ok e
  | .tuple es => .ok (union es)
  | .object [] => .ok string
  | .object fs => .ok (union (fs.map fun f => text f.1))
  | t => if t.kind == .string then .ok string else do Fault.of (.iteration (← t.name))

def itemsOf (t : Ty) : Except Fault Ty := t.eachMember itemsOfSingle

def calledSingle (t : Ty) : Except Fault Ty :=
  match t with
  | .unknown => .ok .unknown
  | .never => .ok .never
  | .function _ r => .ok r
  | t => do Fault.of (.call (← t.name))

def called (t : Ty) : Except Fault Ty := t.eachMember calledSingle

def requireKinds (t : Ty) (kinds : List OperandKind) (refused : String → TypeError) : Except Fault Unit := do
  for m in ← t.sortedMembers do
    unless m.isUnknown || m.isNever || kinds.contains m.kind do
      Fault.of (refused (← m.name))

def requireNumeric (t : Ty) (function : String) : Except Fault Unit :=
  t.requireKinds [.number, .boolean] (.argument function)

def length (t : Ty) : Except Fault Ty := do
  match t with
  | .literal (.string s) => return int s.length
  | .tuple es => return int es.length
  | t =>
    t.requireKinds [.string, .array, .object] .length
    return number

abbrev SliceBounds := Option Int × Option Int × Option Int

def slicedSingle (bounds : Option SliceBounds) (t : Ty) : Except Fault Ty :=
  match t with
  | .unknown => .ok .unknown
  | .never => .ok .never
  | .tuple es =>
    match bounds with
    | none => .ok (.array (union es))
    | some (first, last, step) =>
      match slice? es first last step with
      | some part => .ok (.tuple part)
      | none => Fault.of .sliceStep
  | .array e => .ok (.array e)
  | t => if t.kind == .string then .ok string else do Fault.of (.subscript (← t.name))

def sliced (t : Ty) (bounds : Option SliceBounds) : Except Fault Ty := t.eachMember (slicedSingle bounds)

def sequenceName (t : Ty) : String :=
  match t with
  | .tuple _ => "tuple"
  | t => if t.kind == .array then "list" else "string"

def checkIndex (sequence index : Ty) : Except Fault Unit := do
  unless index.isUnknown || index.isNever || index.isOneOf || index.kind.isNumeric do
    Fault.of (.indexType sequence.sequenceName (← index.name))

def index? : Ty → Option Int
  | .literal s => s.int?
  | _ => none

def charAt (s : String) (index : Ty) : Ty :=
  match index.index?.bind (at? s.toList) with
  | some c => text (String.ofList [c])
  | none => string

def indexed (sequence index : Ty) : Except Fault Ty :=
  match sequence with
  | .tuple es => do
    checkIndex sequence index
    match index.index? with
    | none => return union es
    | some i =>
      match at? es i with
      | some t => return t
      | none => Fault.of .tupleIndex
  | .array e => do
    checkIndex sequence index
    return e
  | .literal (.string s) => do
    checkIndex sequence index
    return charAt s index
  | t =>
    if t.kind == .string then do
      checkIndex sequence index
      return string
    else do Fault.of (.subscript (← t.name))

def sameShape (t : Ty) : Ty :=
  match t with
  | .oneOf ms =>
    match ms.mapM tupleItems? with
    | some (row :: rows) =>
      if rows.all (·.length == row.length) then
        .tuple ((List.range row.length).map fun i => union ((row :: rows).filterMap (·[i]?)))
      else t
    | _ => t
  | t => t
where
  tupleItems? : Ty → Option (List Ty)
    | .tuple es => some es
    | _ => none

/-- The types that the items of a tuple give to targets, of which some are starred. The first starred one
takes all items that the others leave over. -/
def unpackedItems (items : List Ty) (starred : List Bool) : Except Fault (List Ty) :=
  let count := starred.length
  match starred.findIdx? id with
  | none =>
    if count < items.length then Fault.of (.surplusValues count)
    else if items.length < count then Fault.of (.missingValues count items.length)
    else .ok items
  | some star =>
    if items.length < count - 1 then Fault.of (.missingValuesStarred (count - 1) items.length)
    else
      let after := count - star - 1
      let middle := (items.take (items.length - after)).drop star
      .ok (items.take star ++ [.array (union middle)] ++
        ((items.drop (items.length - after)).zip (starred.drop (star + 1))).map fun (t, again) =>
          if again then .array t else t)

def unpackedAlike (item : Ty) (starred : List Bool) : List Ty :=
  starred.map fun s => if s then .array item else item

end Ty

end Casewise
