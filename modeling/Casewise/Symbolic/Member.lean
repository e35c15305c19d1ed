import Casewise.Data.Member
import Casewise.Symbolic.Sequence
import Casewise.Text.Blank
import Casewise.Text.Casing
import Casewise.Text.Word

namespace Casewise

namespace MemberOwner

def ofType (t : Ty) : List MemberOwner :=
  match t with
  | .tuple _ => [.tuple]
  | t =>
    match t.kind with
    | .string => [.text]
    | .array => [.list]
    | .number => [.int, .float]
    | .boolean => [.int]
    | _ => []

end MemberOwner

namespace Text

def isAll (p : Char → Bool) (s : String) : Bool := !s.isEmpty && s.toList.all p

def trimmed (f : List Char → List Char) (s : String) : String := String.ofList (f s.toList)

end Text

namespace Ty

def textFold? (s : String) : String → Option Scalar
  | "upper" => some (.string (Text.upper s))
  | "lower" => some (.string (Text.lower s))
  | "strip" => some (.string (Text.trimmed Text.trim s))
  | "lstrip" => some (.string (Text.trimmed Text.trimStart s))
  | "rstrip" => some (.string (Text.trimmed Text.trimEnd s))
  | "title" => some (.string (Text.title s))
  | "capitalize" => some (.string (Text.capitalize s))
  | "casefold" => some (.string (Text.caseFold s))
  | "swapcase" => some (.string (Text.swapCase s))
  | "isdigit" => some (.boolean (Text.isAll Text.isDigit s))
  | "isalpha" => some (.boolean (Text.isAll Text.isLetter s))
  | "isalnum" => some (.boolean (Text.isAll Text.isAlphanumeric s))
  | "isspace" => some (.boolean (Text.isAll Text.isBlank s))
  | _ => none

def textToText : List String :=
  ["upper", "lower", "strip", "lstrip", "rstrip", "title", "capitalize", "casefold", "swapcase", "replace", "format",
    "join", "zfill", "center", "ljust", "rjust", "removeprefix", "removesuffix", "expandtabs"]

def textToTexts : List String := ["split", "rsplit", "splitlines", "partition", "rpartition"]

def textToBoolean : List String :=
  ["startswith", "endswith", "isdigit", "isalpha", "isalnum", "isspace", "isupper", "islower", "istitle", "isdecimal",
    "isnumeric", "isidentifier"]

def textToNumber : List String := ["find", "rfind", "index", "rindex", "count"]

def textResult (method : String) : Ty :=
  if textToText.contains method then string
  else if textToTexts.contains method then .array string
  else if textToBoolean.contains method then boolean
  else if textToNumber.contains method then number
  else .unknown

def textMethod (receiver : Ty) (method : String) (args : List Ty) : Except Fault Ty :=
  match receiver.text?.bind (textFold? · method), args with
  | some s, [] => .ok (.literal s)
  | _, arg :: _ => do
    if method == "join" then (← arg.itemsOf).requireKinds [.string] (.argument "str.join")
    return textResult method
  | _, [] => .ok (textResult method)

structure MethodResult where
  returns : Ty
  changed : Option Ty := none

def addedBy (method : String) (args : List Ty) : Except Fault Ty :=
  match method, args with
  | "extend", arg :: _ => arg.itemsOf
  | _, args => .ok (args.getLast?.getD .never)

def listMethod (receiver : Ty) (method : String) (args : List Ty) : Except Fault MethodResult :=
  match method with
  | "append" => do return ⟨null, some (.array (union [receiver.element, ← addedBy method args]))⟩
  | "insert" => do return ⟨null, some (.array (union [receiver.element, ← addedBy method args]))⟩
  | "extend" => do return ⟨null, some (.array (union [receiver.element, ← addedBy method args]))⟩
  | "pop" => .ok ⟨receiver.element, none⟩
  | "index" => .ok ⟨number, none⟩
  | "count" => .ok ⟨number, none⟩
  | "copy" => .ok ⟨receiver, none⟩
  | "sort" => .ok ⟨null, none⟩
  | "reverse" => .ok ⟨null, none⟩
  | "clear" => .ok ⟨null, none⟩
  | "remove" => .ok ⟨null, none⟩
  | _ => .ok ⟨.unknown, none⟩

def lookedUp (fields : Bindings Ty) (key fallback : Ty) : Ty :=
  match key.text? with
  | some k => (fields.get? k).getD fallback
  | none => union (fields.map (·.2) ++ [fallback])

def dictMethod (fields : Bindings Ty) (method : String) (args : List Ty) : MethodResult :=
  let key := args.head?.getD .unknown
  let values := union (fields.map (·.2))
  match method with
  | "get" => ⟨lookedUp fields key (args[1]?.getD null), none⟩
  | "pop" => ⟨lookedUp fields key (args[1]?.getD .never), none⟩
  | "setdefault" => ⟨lookedUp fields key (args[1]?.getD .never), none⟩
  | "keys" => ⟨.array string, none⟩
  | "values" => ⟨.array values, none⟩
  | "items" => ⟨.array (.tuple [string, values]), none⟩
  | "copy" => ⟨.object fields, none⟩
  | "update" =>
    match args with
    | .object more :: _ => ⟨null, some (.record (fields.update more))⟩
    | _ => ⟨null, none⟩
  | "clear" => ⟨null, none⟩
  | _ => ⟨.unknown, none⟩

def methodResult (receiver : Ty) (method : String) (args : List Ty) : Except Fault MethodResult :=
  match receiver with
  | .unknown => .ok ⟨.unknown, none⟩
  | .never => .ok ⟨.never, none⟩
  | .object fields => .ok (dictMethod fields method args)
  | t =>
    match t.kind with
    | .string => do return ⟨← textMethod t method args, none⟩
    | .array => listMethod t method args
    | _ => .ok ⟨if method == "is_integer" then boolean else .unknown, none⟩

end Ty

end Casewise
