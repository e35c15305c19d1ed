import Casewise.Data.Datum
import Casewise.Ty.Name

namespace Casewise

/-- Why data is no type. What is no record has no fields, and what is neither a list nor a text nor a record has no
items; a name that is a list or a record cannot be looked up. -/
inductive DecodeError where
  | missing (field : String)
  | notScalar
  | notRecord
  | notItems
  | notName
  deriving DecidableEq, Repr

namespace Ty

def tagged (kind : String) (fields : List (String × Datum)) : Datum :=
  .record (("kind", .text kind) :: fields)

def orderByName (names : List String) (encoded : List Datum) : List Datum :=
  (sortBy (fun a b => textLe a.1 b.1) (names.zip encoded)).map (·.2)

mutual

def encode? : Ty → Option Datum
  | .primitive p => some (tagged "primitive" [("name", .text p.name)])
  | .literal s => some (tagged "literal" [("value", .scalar s)])
  | .oneOf ms => do
    let names ← names? ms
    return tagged "union" [("members", .list (orderByName names (← encodeAll? ms)))]
  | .object fs => do return tagged "object" [("fields", .record (← encodeFields? fs))]
  | .array e => do return tagged "array" [("element", ← encode? e)]
  | .tuple es => do return tagged "tuple" [("elements", .list (← encodeAll? es))]
  | .function ps r => do
    let params ← encodeAll? ps
    return tagged "function" [("params", .list params), ("returns", ← encode? r)]
  | .unknown => some (tagged "unknown" [])
  | .never => some (tagged "never" [])
  | .throws e => some (tagged "throws" [("exception", e.elim .null .text)])

def encodeAll? : List Ty → Option (List Datum)
  | [] => some []
  | t :: ts => do
    let d ← encode? t
    return d :: (← encodeAll? ts)

def encodeFields? : List (String × Ty) → Option (List (String × Datum))
  | [] => some []
  | (k, t) :: fs => do
    let d ← encode? t
    return (k, d) :: (← encodeFields? fs)

end

inductive Kind where
  | primitive | literal | union | object | array | tuple | function | never | throws

def Kind.ofName? : String → Option Kind
  | "primitive" => some .primitive
  | "literal" => some .literal
  | "union" => some .union
  | "object" => some .object
  | "array" => some .array
  | "tuple" => some .tuple
  | "function" => some .function
  | "never" => some .never
  | "throws" => some .throws
  | _ => none

def kindOf? (fields : List (String × Datum)) : Option Kind :=
  match Bindings.get? "kind" fields with
  | some (.scalar (.string k)) => Kind.ofName? k
  | _ => none

def exceptionName : Option Datum → Option String
  | some (.scalar (.string s)) => some s
  | _ => none

def namedPrimitive : Datum → Except DecodeError Ty
  | .scalar (.string n) => .ok (((Primitive.ofName? n).map Ty.primitive).getD .unknown)
  | .scalar _ => .ok .unknown
  | .null => .ok .unknown
  | .list _ => .error .notName
  | .record _ => .error .notName

def literalOf : Datum → Except DecodeError Ty
  | .scalar s => .ok (.literal s)
  | _ => .error .notScalar

/-- The types in data that is no list. The characters of a text and the keys of a record are no types. -/
def decodeOther : Datum → Except DecodeError (List Ty)
  | .record fields => if fields.isEmpty then .ok [] else .error .notRecord
  | .scalar (.string s) => if s.isEmpty then .ok [] else .error .notRecord
  | _ => .error .notItems

def need (key : String) (fields : List (String × Datum)) : Except DecodeError Datum :=
  ((Bindings.get? key fields).map Except.ok).getD (.error (.missing key))

mutual

def decode : Datum → Except DecodeError Ty
  | .record fields =>
    match kindOf? fields with
    | some .primitive => do namedPrimitive (← need "name" fields)
    | some .literal => do literalOf (← need "value" fields)
    | some .union => do return union (← decodeList "members" fields)
    | some .object => do return record (← decodeRecord "fields" fields)
    | some .array => do return .array (← decodeField "element" fields)
    | some .tuple => do return .tuple (← decodeList "elements" fields)
    | some .function => do
      let params ← decodeList "params" fields
      return .function params (← decodeField "returns" fields)
    | some .never => .ok .never
    | some .throws => .ok (.throws (exceptionName (Bindings.get? "exception" fields)))
    | none => .ok .unknown
  | _ => .error .notRecord

def decodeField (key : String) : List (String × Datum) → Except DecodeError Ty
  | [] => .error (.missing key)
  | (k, d) :: rest => if k = key then decode d else decodeField key rest

def decodeList (key : String) : List (String × Datum) → Except DecodeError (List Ty)
  | [] => .error (.missing key)
  | (k, d) :: rest => if k = key then decodeItems d else decodeList key rest

def decodeItems : Datum → Except DecodeError (List Ty)
  | .list items => decodeAll items
  | d => decodeOther d

def decodeAll : List Datum → Except DecodeError (List Ty)
  | [] => .ok []
  | d :: ds => do
    let t ← decode d
    return t :: (← decodeAll ds)

def decodeRecord (key : String) : List (String × Datum) → Except DecodeError (List (String × Ty))
  | [] => .error (.missing key)
  | (k, d) :: rest => if k = key then decodeFields d else decodeRecord key rest

def decodeFields : Datum → Except DecodeError (List (String × Ty))
  | .record fields => decodeEach fields
  | _ => .error .notRecord

def decodeEach : List (String × Datum) → Except DecodeError (List (String × Ty))
  | [] => .ok []
  | (k, d) :: fs => do
    let t ← decode d
    return (k, t) :: (← decodeEach fs)

end

end Ty

end Casewise
