import Casewise.Program.Builtin
import Casewise.Symbolic.Sequence

namespace Casewise.Builtin

def toText (name : String) (args : List Ty) : Except Fault Ty :=
  match args with
  | [] => .ok (.text "")
  | .literal s :: _ =>
    if name == "str" then do return .text (← orTooLong s.plain?) else .ok .string
  | _ => .ok .string

def folded? (convert : Number → Option Number) : Ty → Option Ty
  | .literal s => (s.number?.bind convert).map fun n => .literal (.number n)
  | _ => none

def toInt? (n : Number) : Option Number := n.truncate?.map .int

def toFloat? : Number → Option Number
  | .int n => (Number.int n).toFloat?.map .float
  | n => some n

def absolute? (n : Number) : Option Number := some n.abs

def rounded? (n : Number) : Option Number := n.round?.map .int

def toNumber (name : String) (args : List Ty) : Except Fault Ty :=
  match args with
  | [] => .ok .number
  | arg :: _ =>
    match folded? (if name == "int" then toInt? else toFloat?) arg with
    | some t => .ok t
    | none => do
      arg.requireKinds [.number, .boolean, .string] (.argument name)
      return .number

def magnitude (name : String) (args : List Ty) : Except Fault Ty :=
  match args with
  | [] => Fault.of (.noArgument name)
  | arg :: rest => do
    arg.requireNumeric name
    if !rest.isEmpty then return .number
    return (folded? (if name == "abs" then absolute? else rounded?) arg).getD .number

def extremum? (least : Bool) : List Scalar → Option Scalar
  | [] => none
  | s :: rest => rest.foldlM (fun best t => do
      let better ← if least then Scalar.less? t best else Scalar.less? best t
      return if better then t else best) s

def scalar? : Ty → Option Scalar
  | .literal s => some s
  | _ => none

def extreme (name : String) (args : List Ty) : Except Fault Ty :=
  match args with
  | [] => .ok .never
  | [arg] => arg.itemsOf
  | args =>
    match args.mapM scalar? with
    | none => .ok (.union args)
    | some ss =>
      match extremum? (name == "min") ss with
      | some s => .ok (.literal s)
      | none => do Fault.of (.ordering (← args.mapM Ty.name))

def collected (name : String) (args : List Ty) : Except Fault Ty :=
  match args with
  | [] => .ok (if name == "tuple" then .tuple [] else .array .never)
  | arg :: _ =>
    match name, arg with
    | "tuple", .tuple es => .ok (.tuple es)
    | "iter", arg => arg.itemsOf
    | _, arg => do return .array (← arg.itemsOf)

def summed (args : List Ty) : Except Fault Ty := do
  match args with
  | [] => return .number
  | arg :: _ =>
    (← arg.itemsOf).requireNumeric "sum"
    return .number

def result (name : String) (args : List Ty) (fields : Bindings Ty) : Except Fault Ty :=
  match name with
  | "len" =>
    match args with
    | [] => Fault.of .noLengthArgument
    | arg :: _ => arg.length
  | "str" => toText name args
  | "repr" => toText name args
  | "format" => toText name args
  | "int" => toNumber name args
  | "float" => toNumber name args
  | "abs" => magnitude name args
  | "round" => magnitude name args
  | "min" => extreme name args
  | "max" => extreme name args
  | "bool" =>
    match args with
    | [] => .ok (.bool false)
    | arg :: _ => .ok ((arg.truth?.map Ty.bool).getD .boolean)
  | "isinstance" => .ok .boolean
  | "callable" => .ok .boolean
  | "any" => .ok .boolean
  | "all" => .ok .boolean
  | "hasattr" => .ok .boolean
  | "print" => .ok .null
  | "range" => do
    for arg in args do arg.requireNumeric name
    return .array .number
  | "list" => collected name args
  | "tuple" => collected name args
  | "set" => collected name args
  | "sorted" => collected name args
  | "reversed" => collected name args
  | "iter" => collected name args
  | "sum" => summed args
  | "enumerate" => do
    let item ← match args with
      | [] => pure .never
      | arg :: _ => arg.itemsOf
    return .array (.tuple [.number, item])
  | "zip" => do return .array (.tuple (← args.mapM Ty.itemsOf))
  | "dict" =>
    match args with
    | [] => .ok (.record fields)
    | .object fs :: _ => .ok (.record (Bindings.update fs fields))
    | _ => .ok .unknown
  | "map" =>
    match args with
    | [] => .ok (.array .unknown)
    | arg :: _ => do return .array (← arg.called)
  | "filter" =>
    match args with
    | _ :: arg :: _ => do return .array (← arg.itemsOf)
    | _ => .ok (.array .unknown)
  | "divmod" => do
    for arg in args do arg.requireNumeric name
    return .tuple [.number, .number]
  | "pow" =>
    match args with
    | base :: exponent :: _ => Ty.binary .pow base exponent
    | _ => .ok .number
  | "ord" => .ok .number
  | "hash" => .ok .number
  | "id" => .ok .number
  | "chr" => .ok .string
  | "next" =>
    match args with
    | [] => .ok .unknown
    | arg :: _ => arg.itemsOf
  | _ => .ok .unknown

end Casewise.Builtin
