import Casewise.Number.Decimal

/-!
Numbers as programs compute with them: integers of any size and doubles. Equality and order compare the
exact quantities, so an integer and a double are equal when they are the same number. An operation that
fails (a division by zero, a result too large for a double) gives nothing.

A double may also be no number at all. Such a value equals nothing, but it can be told from others that arose
elsewhere, and so each one may carry a mark.
-/

namespace Casewise

/-- Where a value that is no number arose: in which run, and as which one there. -/
structure Mark where
  run : Nat
  place : Nat
  deriving DecidableEq, Repr

inductive Number where
  | int (value : Int)
  | float (value : Float)
  | nan (mark : Option Mark)

namespace Number

def ofFloat (x : Float) : Number := if x.isNaN then .nan none else .float x

def exact : Number → Exact
  | .int n => .rational n
  | .float x => .ofFloat x
  | .nan _ => .nan

def equal : Number → Number → Bool
  | .int a, .int b => a == b
  | a, b => a.exact.same b.exact

def same : Number → Number → Bool
  | .nan (some m), .nan (some n) => m == n
  | a, b => a.equal b

def withMark (m : Mark) : Number → Number
  | .nan none => .nan (some m)
  | n => n

def less (a b : Number) : Bool := a.exact.less b.exact

def isNaN (a : Number) : Bool := a.exact == .nan

def mark : Number → StateM Mark Number
  | .nan (some m) => return .nan (some m)
  | n => if n.isNaN then modifyGet fun m => (.nan (some m), { m with place := m.place + 1 }) else return n

def isZero (a : Number) : Bool := a.exact == .rational 0

def toFloat? : Number → Option Float
  | .int n => Binary.ofRatio? (n < 0) n.natAbs 1
  | .float x => some x
  | .nan _ => some (0.0 / 0.0)

def signBit (x : Float) : Bool := x.toBits.toNat / Nat.pow 2 63 == 1

def zeroLike (negative : Bool) : Float := Binary.signed negative 0

def truncatedRemainder (x y : Float) : Float :=
  match Binary.ofFloat x, Binary.ofFloat y with
  | .finite negative m e, .finite _ m' e' =>
    let low := min e e'
    let r := (m * Nat.pow 2 (e - low).toNat) % (m' * Nat.pow 2 (e' - low).toNat)
    let (num, den) := Binary.ratio r low
    Binary.ofRatio negative num den
  | .finite .., .infinite _ => x
  | _, _ => 0.0 / 0.0

def floorRemainder (x y : Float) : Float :=
  let r := truncatedRemainder x y
  if r == 0.0 then zeroLike (signBit y)
  else if (y < 0.0) != (r < 0.0) then r + y else r

/-- The quotient rounded down, computed from the remainder so that a rounded difference does not spoil it. -/
def floorQuotient (x y : Float) : Float :=
  let r := truncatedRemainder x y
  let q := (x - r) / y
  let q := if r == 0.0 then q else if (y < 0.0) != (r < 0.0) then q - 1.0 else q
  if q == 0.0 then zeroLike (signBit (x / y))
  else
    let f := q.floor
    if q - f > 0.5 then f + 1.0 else f

def isOddInteger (x : Float) : Bool :=
  match Binary.ofFloat x with
  | .finite _ m e =>
    let (num, den) := Binary.ratio m e
    num % den == 0 && num / den % 2 == 1
  | _ => false

def isIntegral (x : Float) : Bool :=
  match Binary.ofFloat x with
  | .finite _ m e =>
    let (num, den) := Binary.ratio m e
    num % den == 0
  | _ => true

/-- Powers of doubles. Nothing for a negative power of zero, a fractional power of a negative number, and
a result too large for a double. -/
def floatPower (x y : Float) : Option Float :=
  if y == 0.0 then some 1.0
  else if x.isNaN then some x
  else if y.isNaN then some (if x == 1.0 then 1.0 else y)
  else if y.isInf then
    let a := x.abs
    some (if a == 1.0 then 1.0 else if (y > 0.0) == (a > 1.0) then y.abs else 0.0)
  else if x.isInf then
    some (if y > 0.0 then (if isOddInteger y then x else x.abs)
      else if isOddInteger y then zeroLike (signBit x) else 0.0)
  else if x == 0.0 then
    if y < 0.0 then none else some (if isOddInteger y then x else 0.0)
  else if x < 0.0 && !isIntegral y then none
  else
    let negative := x < 0.0 && isOddInteger y
    let r := Float.pow x.abs y
    if r.isInf then none else some (if negative then -r else r)

def lift (onInt : Int → Int → Option Number) (onFloat : Float → Float → Option Number) :
    Number → Number → Option Number
  | .int a, .int b => onInt a b
  | a, b => do onFloat (← a.toFloat?) (← b.toFloat?)

def add : Number → Number → Option Number :=
  lift (fun a b => some (.int (a + b))) (fun x y => some (.ofFloat (x + y)))

def sub : Number → Number → Option Number :=
  lift (fun a b => some (.int (a - b))) (fun x y => some (.ofFloat (x - y)))

def mul : Number → Number → Option Number :=
  lift (fun a b => some (.int (a * b))) (fun x y => some (.ofFloat (x * y)))

def div : Number → Number → Option Number :=
  lift
    (fun a b => if b = 0 then none
      else (Binary.ofRatio? ((a < 0) != (b < 0)) a.natAbs b.natAbs).map .float)
    (fun x y => if y == 0.0 then none else some (.ofFloat (x / y)))

def floorDiv : Number → Number → Option Number :=
  lift (fun a b => if b = 0 then none else some (.int (a.fdiv b)))
    (fun x y => if y == 0.0 then none else some (.ofFloat (floorQuotient x y)))

def mod : Number → Number → Option Number :=
  lift (fun a b => if b = 0 then none else some (.int (a.fmod b)))
    (fun x y => if y == 0.0 then none else some (.ofFloat (floorRemainder x y)))

def pow : Number → Number → Option Number :=
  lift
    (fun a b => if 0 ≤ b then some (.int (Int.pow a b.toNat)) else do
      (floatPower (← (Number.int a).toFloat?) (← (Number.int b).toFloat?)).map .float)
    (fun x y => (floatPower x y).map .ofFloat)

def complement (n : Int) : Int := -n - 1

def bitAnd (a b : Int) : Int :=
  match decide (0 ≤ a), decide (0 ≤ b) with
  | true, true => (a.toNat &&& b.toNat : Nat)
  | true, false => a - (a.toNat &&& (complement b).toNat : Nat)
  | false, true => b - (b.toNat &&& (complement a).toNat : Nat)
  | false, false => complement ((complement a).toNat ||| (complement b).toNat : Nat)

def bitOr (a b : Int) : Int := complement (bitAnd (complement a) (complement b))

def bitXor (a b : Int) : Int :=
  match decide (0 ≤ a), decide (0 ≤ b) with
  | true, true => (a.toNat ^^^ b.toNat : Nat)
  | true, false => complement (a.toNat ^^^ (complement b).toNat : Nat)
  | false, true => complement ((complement a).toNat ^^^ b.toNat : Nat)
  | false, false => ((complement a).toNat ^^^ (complement b).toNat : Nat)

def bitLength (n : Int) : Nat := if n = 0 then 0 else n.natAbs.log2 + 1

def shiftLeft (a b : Int) : Option Int := if b < 0 then none else some (a * Int.pow 2 b.toNat)

def shiftRight (a b : Int) : Option Int :=
  if b < 0 then none
  else if (bitLength a : Int) < b then some (if a < 0 then -1 else 0)
  else some (a.fdiv (Int.pow 2 b.toNat))

def negate : Number → Number
  | .int n => .int (-n)
  | .float x => .float (-x)
  | .nan _ => .nan none

def abs : Number → Number
  | .int n => .int n.natAbs
  | .float x => .float x.abs
  | .nan _ => .nan none

def truncate? : Number → Option Int
  | .int n => some n
  | .nan _ => none
  | .float x =>
    match Binary.ofFloat x with
    | .finite negative m e =>
      let (num, den) := Binary.ratio m e
      some (if negative then -(num / den : Nat) else (num / den : Nat))
    | _ => none

def round? : Number → Option Int
  | .int n => some n
  | .nan _ => none
  | .float x =>
    match Binary.ofFloat x with
    | .finite negative m e =>
      let (num, den) := Binary.ratio m e
      let r := Binary.roundHalfEven num den
      some (if negative then -(r : Int) else r)
    | _ => none

end Number

end Casewise
