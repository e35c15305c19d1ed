import Casewise.Number.Basic
import Casewise.Text.Quoted

/-!
Scalar values: numbers, texts and truth values. Two scalars are the same when they are of the same kind
and equal as values, so `1` and `1.0` are the same and `1` and `true` are not. A value that is no number is
only the same as itself.
-/

namespace Casewise

inductive Primitive where
  | number
  | string
  | boolean
  | null
  | undefined
  deriving DecidableEq, Repr

namespace Primitive

def name : Primitive → String
  | .number => "number"
  | .string => "string"
  | .boolean => "boolean"
  | .null => "null"
  | .undefined => "undefined"

def all : List Primitive := [.number, .string, .boolean, .null, .undefined]

def ofName? (name : String) : Option Primitive := all.find? (·.name == name)

end Primitive

inductive Scalar where
  | number (value : Number)
  | string (value : String)
  | boolean (value : Bool)

namespace Scalar

def int (n : Int) : Scalar := .number (.int n)

def primitive : Scalar → Primitive
  | .number _ => .number
  | .string _ => .string
  | .boolean _ => .boolean

def same : Scalar → Scalar → Bool
  | .number a, .number b => a.same b
  | .string a, .string b => a == b
  | .boolean a, .boolean b => a == b
  | _, _ => false

def mapNumber {m : Type → Type} [Monad m] (f : Number → m Number) : Scalar → m Scalar
  | .number n => do return .number (← f n)
  | s => return s

def number? : Scalar → Option Number
  | .number n => some n
  | .boolean b => some (.int (if b then 1 else 0))
  | .string _ => none

def int? (s : Scalar) : Option Int :=
  match s.number? with
  | some (.int n) => some n
  | _ => none

def truth : Scalar → Bool
  | .number n => !n.isZero
  | .string s => s != ""
  | .boolean b => b

def text? : Scalar → Option String
  | .number (.int n) => integerText? n
  | .number (.float x) => some (floatText ⟨"Infinity", "NaN"⟩ x)
  | .number (.nan _) => some "NaN"
  | .string s => some (Text.escaped s)
  | .boolean b => some (if b then "true" else "false")

def literal? : Scalar → Option String
  | .number (.int n) => integerText? n
  | .number (.float x) => some (floatText ⟨"inf", "nan"⟩ x)
  | .number (.nan _) => some "nan"
  | .string s => some (Text.literal s)
  | .boolean b => some (if b then "True" else "False")

def plain? : Scalar → Option String
  | .string s => some s
  | s => s.literal?

end Scalar

end Casewise
