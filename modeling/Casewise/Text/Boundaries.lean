/-!
Sets of characters as sorted boundaries: a number is in the set when an odd number of boundaries are at
or below it. So the gaps between boundaries are, in turn, how many characters in a row are out of the set
and how many are in it.
-/

namespace Casewise.Text

structure Boundaries where
  points : Array Nat

namespace Boundaries

def reached (n : Nat) : List Nat → List Nat
  | [] => []
  | gap :: gaps => (n + gap) :: reached (n + gap) gaps

def ofGaps (gaps : List Nat) : Boundaries := ⟨(reached 0 gaps).toArray⟩

def countUpTo (points : Array Nat) (n low high : Nat) : Nat :=
  if low < high then
    let middle := (low + high) / 2
    if points[middle]?.any (· ≤ n) then countUpTo points n (middle + 1) high
    else countUpTo points n low middle
  else low
termination_by high - low

def holds (b : Boundaries) (n : Nat) : Bool := countUpTo b.points n 0 b.points.size % 2 == 1

end Boundaries

end Casewise.Text
