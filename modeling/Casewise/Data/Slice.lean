namespace Casewise

variable {α : Type}

def at? (xs : List α) (i : Int) : Option α :=
  let i := if i < 0 then i + xs.length else i
  if i < 0 then none else xs[i.toNat]?

def clampBound (n : Nat) (low high : Int) (i : Int) : Int :=
  let i := if i < 0 then i + n else i
  max low (min i high)

def steppedFrom (xs : List α) (start step : Int) (count : Nat) : List α :=
  (List.range count).filterMap fun (k : Nat) => xs[(start + k * step).toNat]?

def slice? (xs : List α) (start stop step : Option Int) : Option (List α) :=
  let n := xs.length
  let step := step.getD 1
  if step = 0 then none
  else if 0 < step then
    let first := (start.map (clampBound n 0 n)).getD 0
    let last := (stop.map (clampBound n 0 n)).getD n
    some (steppedFrom xs first step ((last - first + step - 1) / step).toNat)
  else
    let first := (start.map (clampBound n (-1) (n - 1))).getD (n - 1)
    let last := (stop.map (clampBound n (-1) (n - 1))).getD (-1)
    some (steppedFrom xs first step ((first - last - step - 1) / (-step)).toNat)

def between (xs : List α) (start stop : Int) : List α :=
  let n := xs.length
  let first := clampBound n 0 n start
  let last := clampBound n 0 n stop
  (xs.drop first.toNat).take (last - first).toNat

def fromPosition (xs : List α) (start : Int) : List α := between xs start xs.length

end Casewise
