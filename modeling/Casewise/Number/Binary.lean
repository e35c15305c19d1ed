namespace Casewise

inductive Binary where
  | finite (negative : Bool) (significand : Nat) (exponent : Int)
  | infinite (negative : Bool)
  | nan
  deriving DecidableEq, Repr

namespace Binary

def leastExponent : Int := -1074

def ofFloat (x : Float) : Binary :=
  let bits := x.toBits.toNat
  let negative := bits / Nat.pow 2 63 == 1
  let field : Nat := bits / Nat.pow 2 52 % Nat.pow 2 11
  let fraction := bits % Nat.pow 2 52
  if field = 2047 then
    if fraction = 0 then .infinite negative else .nan
  else if field = 0 then .finite negative fraction leastExponent
  else .finite negative (Nat.pow 2 52 + fraction) ((field : Int) - 1075)

def ratio (significand : Nat) (exponent : Int) : Nat × Nat :=
  if 0 ≤ exponent then (significand * Nat.pow 2 exponent.toNat, 1)
  else (significand, Nat.pow 2 (-exponent).toNat)

def roundHalfEven (num den : Nat) : Nat :=
  let q := num / den
  let r := num % den
  if 2 * r < den then q
  else if den < 2 * r then q + 1
  else if q % 2 = 0 then q else q + 1

def scale (num den : Nat) : Int :=
  let guess : Int := (num.log2 : Int) - den.log2 - 53
  let wide := if 0 ≤ guess then num / (den * Nat.pow 2 guess.toNat) else num * Nat.pow 2 (-guess).toNat / den
  max (if Nat.pow 2 53 ≤ wide then guess + 1 else guess) leastExponent

def infinityBits : Nat := 2047 * Nat.pow 2 52

/-- The bits of the double nearest to `num / den`; at or above `infinityBits` the quotient is too large. -/
def nearestBits (num den : Nat) : Nat :=
  if num = 0 then 0
  else
    let s := scale num den
    let m := if 0 ≤ s then roundHalfEven num (den * Nat.pow 2 s.toNat)
      else roundHalfEven (num * Nat.pow 2 (-s).toNat) den
    m + (s - leastExponent).toNat * Nat.pow 2 52

def signed (negative : Bool) (bits : Nat) : Float :=
  Float.ofBits (UInt64.ofNat (if negative then bits + Nat.pow 2 63 else bits))

def ofRatio? (negative : Bool) (num den : Nat) : Option Float :=
  let bits := nearestBits num den
  if bits < infinityBits then some (signed negative bits) else none

def ofRatio (negative : Bool) (num den : Nat) : Float :=
  signed negative (min (nearestBits num den) infinityBits)

end Binary

inductive Exact where
  | rational (value : Rat)
  | infinite (negative : Bool)
  | nan
  deriving DecidableEq

namespace Exact

def ofFloat (x : Float) : Exact :=
  match Binary.ofFloat x with
  | .finite negative m e =>
    let (num, den) := Binary.ratio m e
    .rational (mkRat (if negative then -(num : Int) else num) den)
  | .infinite negative => .infinite negative
  | .nan => .nan

def same : Exact → Exact → Bool
  | .rational a, .rational b => a == b
  | .infinite a, .infinite b => a == b
  | _, _ => false

def less : Exact → Exact → Bool
  | .rational a, .rational b => a < b
  | .rational _, .infinite negative => !negative
  | .infinite negative, .rational _ => negative
  | .infinite a, .infinite b => a && !b
  | _, _ => false

end Exact

end Casewise
