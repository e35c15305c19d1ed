/-!
Octets as text. What is no UTF-8 is replaced: each longest run of octets that could have begun a character, or a
single octet that could not, gives one replacement character.
-/

namespace Casewise.Text

def replacement : Char := Char.ofNat 0xfffd

structure Lead where
  count : Nat
  bits : Nat
  low : Nat := 0x80
  high : Nat := 0xbf

def lead? (b : Nat) : Option Lead :=
  if 0xc2 ≤ b ∧ b ≤ 0xdf then some { count := 1, bits := b - 0xc0 }
  else if b = 0xe0 then some { count := 2, bits := 0, low := 0xa0 }
  else if b = 0xed then some { count := 2, bits := 0xd, high := 0x9f }
  else if 0xe1 ≤ b ∧ b ≤ 0xef then some { count := 2, bits := b - 0xe0 }
  else if b = 0xf0 then some { count := 3, bits := 0, low := 0x90 }
  else if 0xf1 ≤ b ∧ b ≤ 0xf3 then some { count := 3, bits := b - 0xf0 }
  else if b = 0xf4 then some { count := 3, bits := 4, high := 0x8f }
  else none

def isTail (b : Nat) : Bool := 0x80 ≤ b && b ≤ 0xbf

def Lead.tail (l : Lead) : List Nat → List Nat
  | b :: rest => if l.low ≤ b ∧ b ≤ l.high then b :: (rest.take (l.count - 1)).takeWhile isTail else []
  | [] => []

def firstChar (b : Nat) (rest : List Nat) : Char × Nat :=
  if b < 0x80 then (Char.ofNat b, 0)
  else
    match lead? b with
    | none => (replacement, 0)
    | some l =>
      let tail := l.tail rest
      if tail.length = l.count then (Char.ofNat (tail.foldl (fun n t => n * 64 + (t - 0x80)) l.bits), l.count)
      else (replacement, tail.length)

def ofOctets (bs : List Nat) : List Char :=
  match bs with
  | [] => []
  | b :: rest =>
    let (c, n) := firstChar b rest
    c :: ofOctets (rest.drop n)
termination_by bs.length

end Casewise.Text
