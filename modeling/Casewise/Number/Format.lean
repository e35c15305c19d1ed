import Casewise.Number.Basic

namespace Casewise.Decimal

def withPoint (keepPoint : Bool) (whole fraction : String) : String :=
  if fraction = "" then if keepPoint then whole ++ "." else whole else whole ++ "." ++ fraction

def fixed (num den places : Nat) (keepPoint : Bool) : String :=
  let digits := toString (Binary.roundHalfEven (num * Nat.pow 10 places) den)
  let padded := (zeros (places + 1 - digits.length) ++ digits).toList
  let whole := padded.length - places
  withPoint keepPoint (String.ofList (padded.take whole)) (String.ofList (padded.drop whole))

def leading (num den n : Nat) : String × Int :=
  let k := magnitude num den
  let (num', den') := scaled num den (k - n)
  let digits := toString (Binary.roundHalfEven num' den')
  if n < digits.length then (String.ofList (digits.toList.take n), k + 1) else (digits, k)

def significant (num den n : Nat) : String × Int :=
  if num = 0 then (zeros n, 1) else leading num den n

def exponential (num den places : Nat) (keepPoint : Bool) : String :=
  let (digits, k) := significant num den (places + 1)
  let cs := digits.toList
  withPoint keepPoint (String.ofList (cs.take 1)) (String.ofList (cs.drop 1)) ++ "e" ++ exponentText (k - 1)

def dropZeros (cs : List Char) : List Char := (cs.reverse.dropWhile (· == '0')).reverse

def general (num den n : Nat) (keepZeros : Bool) : String :=
  let n := max n 1
  let (digits, k) := significant num den n
  let shown := if keepZeros then digits.toList else dropZeros digits.toList
  if k ≤ -4 ∨ (n : Int) < k then
    withPoint keepZeros (String.ofList (digits.toList.take 1)) (String.ofList (shown.drop 1)) ++ "e" ++
      exponentText (k - 1)
  else if k ≤ 0 then
    withPoint keepZeros "0"
      (if shown.isEmpty then "" else zeros (-k).toNat ++ String.ofList shown)
  else
    withPoint keepZeros (String.ofList (digits.toList.take k.toNat)) (String.ofList (shown.drop k.toNat))

end Casewise.Decimal

namespace Casewise

inductive FloatLayout where
  | fixed
  | exponential
  | general
  deriving DecidableEq, Repr

def layoutFloat (layout : FloatLayout) (precision : Nat) (alternate : Bool) (x : Float) : String :=
  match Binary.ofFloat x with
  | .nan => "nan"
  | .infinite negative => if negative then "-inf" else "inf"
  | .finite negative m e =>
    let (num, den) := Binary.ratio m e
    (if negative then "-" else "") ++
      match layout with
      | .fixed => Decimal.fixed num den precision alternate
      | .exponential => Decimal.exponential num den precision alternate
      | .general => Decimal.general num den precision alternate

def Number.brief (n : Number) : Option String := n.toFloat?.map (layoutFloat .general 6 false)

end Casewise
