import Casewise.Number.Basic
import Casewise.Text.Digit

namespace Casewise.Numeral

def digits? (cs : List Char) : Option Nat :=
  cs.foldlM (fun n c => (Text.decimalValue? c).map (n * 10 + ·)) 0

def integer? (cs : List Char) : Option Int :=
  if cs.isEmpty || digitLimit < cs.length then none else (digits? cs).map Int.ofNat

def isExponentMark (c : Char) : Bool := c == 'e' || c == 'E'

def exponent? : List Char → Option Int
  | '-' :: cs => if cs.isEmpty then none else (digits? cs).map fun n => -(n : Int)
  | '+' :: cs => if cs.isEmpty then none else (digits? cs).map Int.ofNat
  | cs => if cs.isEmpty then none else (digits? cs).map Int.ofNat

def decimal? (cs : List Char) : Option Decimal := do
  let mantissa := cs.takeWhile (!isExponentMark ·)
  let exponent ← match cs.dropWhile (!isExponentMark ·) with
    | [] => some 0
    | _ :: rest => exponent? rest
  let whole := mantissa.takeWhile (· != '.')
  let fraction := (mantissa.dropWhile (· != '.')).drop 1
  if whole.isEmpty && fraction.isEmpty then none
  else return ⟨← digits? (whole ++ fraction), exponent - fraction.length⟩

def float? (cs : List Char) : Option Float := (decimal? cs).map Decimal.toFloat

def number? (cs : List Char) : Option Number :=
  if cs.any fun c => c == '.' || isExponentMark c then (float? cs).map .float
  else (integer? cs).map .int

end Casewise.Numeral
