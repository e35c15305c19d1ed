import Casewise.Concrete.Process

namespace Casewise.Concrete

def canonicalException (name : String) : String :=
  if name = "EnvironmentError" || name = "IOError" then "OSError" else name

def isFatal (name : String) : Bool :=
  ["BaseException", "BaseExceptionGroup", "GeneratorExit", "KeyboardInterrupt", "SystemExit"].contains name

def exactArguments? (name : String) : Option Nat :=
  match name with
  | "UnicodeDecodeError" => some 5
  | "UnicodeEncodeError" => some 5
  | "UnicodeTranslateError" => some 4
  | "ExceptionGroup" => some 2
  | "BaseExceptionGroup" => some 2
  | _ => none

def argumentCount (name : String) (wanted given : Nat) : String :=
  let function := if (name.toList.drop (name.length - 5)) == "Group".toList then
    "BaseExceptionGroup.__new__()" else "function"
  function ++ " takes exactly " ++ toString wanted ++ " arguments (" ++ toString given ++ " given)"

def makeException (name : String) (args : List Value) : Run Value := do
  match exactArguments? name with
  | some n => if args.length != n then Run.raise "TypeError" (argumentCount name n args.length)
  | none => pure ()
  return .exception (canonicalException name) args

def exceptionText? (cls : String) : List Value → Option String
  | [] => some ""
  | [v] => if cls = "KeyError" then v.literal? else v.plain?
  | vs => (Value.tuple vs).literal?

def raiseValue {α : Type} (v : Value) : Run α := do
  let v ← match v with
    | .builtin .cls cls => if Builtin.isException cls then makeException cls [] else pure v
    | v => pure v
  match v with
  | .exception cls args =>
    if isFatal cls then throw (.fatal cls)
    match exceptionText? cls args with
    | some text => Run.raise cls text
    | none => throw .unsupported
  | _ => Run.raise "TypeError" "exceptions must derive from BaseException"

end Casewise.Concrete
