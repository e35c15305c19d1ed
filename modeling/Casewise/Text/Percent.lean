import Casewise.Data.Scalar
import Casewise.Number.Format

namespace Casewise.Text.Percent

structure Flags where
  left : Bool := false
  plus : Bool := false
  space : Bool := false
  alternate : Bool := false
  zero : Bool := false

inductive FormatError where
  | invalid
  | tooLarge
  deriving DecidableEq, Repr

structure Directive where
  flags : Flags
  width : Nat
  precision : Option Nat
  conversion : Char

abbrev Supply := Option Scalar

def takeFlags : Flags → List Char → Flags × List Char
  | f, '-' :: cs => takeFlags { f with left := true } cs
  | f, '+' :: cs => takeFlags { f with plus := true } cs
  | f, ' ' :: cs => takeFlags { f with space := true } cs
  | f, '#' :: cs => takeFlags { f with alternate := true } cs
  | f, '0' :: cs => takeFlags { f with zero := true } cs
  | f, cs => (f, cs)

def digitsValue (cs : List Char) : Nat := cs.foldl (fun n c => n * 10 + (c.toNat - '0'.toNat)) 0

def takeSize (supply : Supply) : List Char → Option (Option Int × Supply × List Char)
  | '*' :: cs => do
    let n ← (← supply).int?
    return (some n, none, cs)
  | cs =>
    let digits := cs.takeWhile Char.isDigit
    some (if digits.isEmpty then none else some (digitsValue digits), supply, cs.dropWhile Char.isDigit)

def widthLimit : Int := Int.pow 2 63 - 1

def precisionLimit : Int := Int.pow 2 31 - 1

def roomLimit : Nat := Nat.pow 2 36

def takeWidth (supply : Supply) (cs : List Char) : Option (Int × Supply × List Char) := do
  let (n, supply, cs) ← takeSize supply cs
  let n := n.getD 0
  if widthLimit < n || n < -widthLimit - 1 then none else some (n, supply, cs)

def takePrecision (supply : Supply) : List Char → Option (Option Nat × Supply × List Char)
  | '.' :: cs => do
    let (n, supply, cs) ← takeSize supply cs
    let n := n.getD 0
    if precisionLimit < n || n < -precisionLimit - 1 then none else some (some n.toNat, supply, cs)
  | cs => some (none, supply, cs)

def skipLength : List Char → List Char
  | 'h' :: cs => cs
  | 'l' :: cs => cs
  | 'L' :: cs => cs
  | cs => cs

def takeDirective (supply : Supply) (cs : List Char) : Option (Directive × Supply × List Char) := do
  let (flags, cs) := takeFlags {} cs
  let (width, supply, cs) ← takeWidth supply cs
  let flags := if width < 0 then { flags with left := true } else flags
  let (precision, supply, cs) ← takePrecision supply cs
  match skipLength cs with
  | [] => none
  | c :: rest => some (⟨flags, width.natAbs, precision, c⟩, supply, rest)

def digitsInBase (base n : Nat) : String := String.ofList (Nat.toDigits base n)

def integerBody (d : Directive) (n : Int) : Option (String × String × String) := do
  let digits ←
    match d.conversion with
    | 'o' => some (digitsInBase 8 n.natAbs)
    | 'x' => some (digitsInBase 16 n.natAbs)
    | 'X' => some ((digitsInBase 16 n.natAbs).map Char.toUpper)
    | _ => (integerText? n).map fun _ => toString n.natAbs
  let digits := Decimal.zeros ((d.precision.getD 0) - digits.length) ++ digits
  let mark :=
    if !d.flags.alternate then ""
    else match d.conversion with
      | 'o' => "0o"
      | 'x' => "0x"
      | 'X' => "0X"
      | _ => ""
  return (if n < 0 then "-" else "", mark, digits)

def floatBody (d : Directive) (x : Float) : String × String × String :=
  let layout :=
    match d.conversion with
    | 'e' => FloatLayout.exponential
    | 'E' => .exponential
    | 'f' => .fixed
    | 'F' => .fixed
    | _ => .general
  let t := layoutFloat layout (d.precision.getD 6) d.flags.alternate x
  let t := if d.conversion.isUpper then t.map Char.toUpper else t
  if t.startsWith "-" then ("-", "", (t.drop 1).toString) else ("", "", t)

def signOr (flags : Flags) (sign : String) : String :=
  if sign ≠ "" then sign else if flags.plus then "+" else if flags.space then " " else ""

def spaces (n : Nat) : String := String.ofList (List.replicate n ' ')

def padNumber (d : Directive) (sign mark digits : String) : String :=
  let sign := signOr d.flags sign
  let gap := d.width - (sign.length + mark.length + digits.length)
  if d.flags.left then sign ++ mark ++ digits ++ spaces gap
  else if d.flags.zero then sign ++ mark ++ Decimal.zeros gap ++ digits
  else spaces gap ++ sign ++ mark ++ digits

def padText (d : Directive) (t : String) : String :=
  let gap := d.width - t.length
  if d.flags.left then t ++ spaces gap else spaces gap ++ t

def asciiLiteral (s : String) : String :=
  String.ofList (s.toList.flatMap fun c =>
    if c.toNat < 128 then [c]
    else if c.toNat < 0x100 then '\\' :: 'x' :: hexText 2 c.toNat
    else if c.toNat < 0x10000 then '\\' :: 'u' :: hexText 4 c.toNat
    else '\\' :: 'U' :: hexText 8 c.toNat)

def integerOf (conversion : Char) (value : Scalar) : Option Int := do
  let n ← value.number?
  if "oxX".toList.contains conversion then value.int? else n.truncate?

def charOf : Scalar → Option String
  | .string s => if s.length = 1 then some s else none
  | s => do
    let n ← s.int?
    if 0 ≤ n ∧ n < 0x110000 then some (String.ofList [Char.ofNat n.toNat]) else none

def truncated (precision : Option Nat) (t : String) : String :=
  match precision with
  | some p => String.ofList (t.toList.take p)
  | none => t

def convert (d : Directive) (value : Scalar) : Option String :=
  if "diuoxX".toList.contains d.conversion then do
    let (sign, mark, digits) ← integerBody d (← integerOf d.conversion value)
    return padNumber d sign mark digits
  else if "eEfFgG".toList.contains d.conversion then do
    let (sign, mark, digits) := floatBody d (← (← value.number?).toFloat?)
    return padNumber d sign mark digits
  else match d.conversion with
    | 's' => value.plain?.map fun t => padText d (truncated d.precision t)
    | 'r' => value.literal?.map fun t => padText d (truncated d.precision t)
    | 'a' => value.literal?.map fun t => padText d (truncated d.precision (asciiLiteral t))
    | 'c' => (charOf value).map (padText d)
    | _ => none

def orInvalid {α : Type} : Option α → Except FormatError α
  | some a => .ok a
  | none => .error .invalid

def shown (d : Directive) (value : Scalar) : Except FormatError String := do
  let narrow ← orInvalid (convert { d with width := 0 } value)
  if roomLimit < d.width then throw .tooLarge
  return (convert d value).getD narrow

def formatFrom : Nat → Supply → List Char → Except FormatError (String × Supply)
  | 0, _, _ => throw .invalid
  | fuel + 1, supply, cs => do
    let plain := cs.takeWhile (· != '%')
    match cs.dropWhile (· != '%') with
    | [] => return (String.ofList plain, supply)
    | _ :: '%' :: rest =>
      let (tail, supply) ← formatFrom fuel supply rest
      return (String.ofList plain ++ "%" ++ tail, supply)
    | _ :: rest =>
      let (d, supply, rest) ← orInvalid (takeDirective supply rest)
      let text ← shown d (← orInvalid supply)
      let (tail, supply) ← formatFrom fuel none rest
      return (String.ofList plain ++ text ++ tail, supply)

def format (template : String) (value : Scalar) : Except FormatError String := do
  let cs := template.toList
  let (t, supply) ← formatFrom (cs.length + 1) (some value) cs
  if supply.isSome then throw .invalid
  return t

end Casewise.Text.Percent
