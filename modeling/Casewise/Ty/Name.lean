import Casewise.Ty.Union

namespace Casewise.Ty

def bracketed (t : Ty) (name : String) : String := if t.isFunction then "(" ++ name ++ ")" else name

def joinNames (named : List (Ty × String)) : String :=
  match named with
  | [] => "never"
  | [(_, n)] => n
  | ns => " | ".intercalate ((sortBy (fun a b => textLe a.2 b.2) ns).map fun p => bracketed p.1 p.2)

def alternativeField (key : String) (named : List (Ty × String)) : String :=
  if named.any (·.1.isPrimitive .undefined) then
    key ++ "?: " ++ joinNames (named.filter fun p => !p.1.isPrimitive .undefined)
  else key ++ ": " ++ joinNames named

mutual

def name? : Ty → Option String
  | .primitive p => some p.name
  | .literal s => s.text?
  | .oneOf ms => do return joinNames (ms.zip (← names? ms))
  | .object [] => some "\x7b\x7d"
  | .object fs => do return "\x7b " ++ ", ".intercalate (← fieldNames? fs) ++ " \x7d"
  | .array e => do
    let inner ← name? e
    return (if e.isOneOf || e.isFunction then "(" ++ inner ++ ")" else inner) ++ "[]"
  | .tuple es => do return "tuple[" ++ ", ".intercalate (← names? es) ++ "]"
  | .function ps r => do
    let params ← names? ps
    return "(" ++ ", ".intercalate params ++ ") -> " ++ (← name? r)
  | .unknown => some "unknown"
  | .never => some "never"
  | .throws none => some "throws"
  | .throws (some e) => some (if e = "" then "throws" else "throws " ++ e)

def names? : List Ty → Option (List String)
  | [] => some []
  | t :: ts => do
    let n ← name? t
    return n :: (← names? ts)

def fieldNames? : List (String × Ty) → Option (List String)
  | [] => some []
  | (k, .oneOf ms) :: fs => do
    let named := ms.zip (← names? ms)
    return alternativeField k named :: (← fieldNames? fs)
  | (k, t) :: fs => do
    let n ← name? t
    return (k ++ ": " ++ n) :: (← fieldNames? fs)

end

/-- The alternatives of a type by name. The order needs the names, so it fails where a name does. -/
def sortedMembers? : Ty → Option (List Ty)
  | .oneOf ms => do
    let named := ms.zip (← names? ms)
    return (sortBy (fun a b => textLe a.2 b.2) named).map (·.1)
  | t => some [t]

end Casewise.Ty
