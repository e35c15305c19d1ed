import Casewise.Number.Binary

namespace Casewise

structure Decimal where
  digits : Nat
  exponent : Int
  deriving DecidableEq, Repr

namespace Decimal

def belowPower (num den : Nat) (k : Int) : Bool :=
  if 0 ≤ k then num < den * Nat.pow 10 k.toNat else num * Nat.pow 10 (-k).toNat < den

def magnitude (num den : Nat) : Int :=
  let bits : Int := (num.log2 : Int) - den.log2
  let guess := bits * 30103 / 100000
  (([guess - 1, guess, guess + 1].find? (belowPower num den)).getD (guess + 2))

def trimmed : Nat → Decimal → Decimal
  | 0, d => d
  | fuel + 1, d =>
    if d.digits % 10 = 0 ∧ d.digits ≠ 0 then trimmed fuel ⟨d.digits / 10, d.exponent + 1⟩ else d

def scaled (num den : Nat) (unit : Int) : Nat × Nat :=
  if 0 ≤ unit then (num, den * Nat.pow 10 unit.toNat) else (num * Nat.pow 10 (-unit).toNat, den)

def readsBack (m : Nat) (e : Int) (c : Nat) (unit : Int) : Bool :=
  let below := if m = Nat.pow 2 52 ∧ Binary.leastExponent < e then 1 else 2
  let (num, den) := Binary.ratio 1 (e - 2)
  -- compare c * 10 ^ unit with (4 * m - below) * num / den and (4 * m + 2) * num / den
  let (left, right) := if 0 ≤ unit then (c * Nat.pow 10 unit.toNat * den, num)
    else (c * den, num * Nat.pow 10 (-unit).toNat)
  let low := (4 * m - below) * right
  let high := (4 * m + 2) * right
  if m % 2 = 0 then low ≤ left && left ≤ high else low < left && left < high

def shortestAt (m : Nat) (e : Int) (n : Nat) : Option Decimal :=
  let (num, den) := Binary.ratio m e
  let unit := magnitude num den - n
  let (num', den') := scaled num den unit
  let c := num' / den'
  match readsBack m e c unit, readsBack m e (c + 1) unit with
  | true, true => some ⟨Binary.roundHalfEven num' den', unit⟩
  | true, false => some ⟨c, unit⟩
  | false, true => some ⟨c + 1, unit⟩
  | false, false => none

def shortest (m : Nat) (e : Int) : Decimal :=
  let found := ((List.range' 1 17).findSome? (shortestAt m e)).getD ⟨0, 0⟩
  trimmed 20 found

def zeros (n : Nat) : String := String.ofList (List.replicate n '0')

def text (d : Decimal) : String := toString d.digits

def point (d : Decimal) : Int := d.text.length + d.exponent

def exponentText (e : Int) : String :=
  let digits := toString e.natAbs
  (if e < 0 then "-" else "+") ++ (if digits.length < 2 then "0" ++ digits else digits)

def positional (digits : String) (k : Int) : String :=
  let n := digits.length
  if k ≤ 0 then "0." ++ zeros (-k).toNat ++ digits
  else if (n : Int) ≤ k then digits ++ zeros (k.toNat - n) ++ ".0"
  else
    let cs := digits.toList
    String.ofList (cs.take k.toNat) ++ "." ++ String.ofList (cs.drop k.toNat)

def scientific (digits : String) (k : Int) : String :=
  let cs := digits.toList
  let rest := cs.drop 1
  String.ofList (cs.take 1) ++ (if rest.isEmpty then "" else "." ++ String.ofList rest) ++ "e" ++
    exponentText (k - 1)

/-- The text of the shortest decimal: positional from `10 ^ -4` up to `10 ^ 16`. -/
def display (d : Decimal) : String :=
  let k := d.point
  if k ≤ -4 ∨ 16 < k then scientific d.text k else positional d.text k

def toFloat (d : Decimal) : Float :=
  if d.digits = 0 then 0.0
  else if 330 < d.point then Binary.signed false Binary.infinityBits
  else if d.point < -330 then 0.0
  else if 0 ≤ d.exponent then Binary.ofRatio false (d.digits * Nat.pow 10 d.exponent.toNat) 1
  else Binary.ofRatio false d.digits (Nat.pow 10 (-d.exponent).toNat)

end Decimal

def digitLimit : Nat := 4300

def digitBound : Nat := Nat.pow 10 digitLimit

def integerText? (n : Int) : Option String :=
  if n.natAbs < digitBound then some (toString n) else none

structure SpecialNames where
  infinity : String
  nan : String

def floatText (names : SpecialNames) (x : Float) : String :=
  match Binary.ofFloat x with
  | .nan => names.nan
  | .infinite negative => (if negative then "-" else "") ++ names.infinity
  | .finite negative m e =>
    (if negative then "-" else "") ++ (if m = 0 then "0.0" else (Decimal.shortest m e).display)

end Casewise
