namespace Casewise.Glob

/-- A set of characters, written in chunks: between two chunks stands the range from the last character of the
one to the first of the next. -/
structure CharSet where
  negated : Bool
  chunks : List (List Char)

namespace CharSet

def inRange (c : Char) : List (List Char) → Bool
  | a :: b :: rest =>
    (match a.getLast?, b.head? with
      | some low, some high => decide (low ≤ c ∧ c ≤ high)
      | _, _ => false) || inRange c (b :: rest)
  | _ => false

def holds (s : CharSet) (c : Char) : Bool :=
  (s.chunks.any (·.contains c) || inRange c s.chunks) != s.negated

def prepend (c : Char) : List (List Char) → List (List Char)
  | [] => [[c]]
  | chunk :: rest => (c :: chunk) :: rest

/-- Splits the text between brackets at the hyphens that make ranges. A hyphen among the first `skip` characters
is itself, and so is one at the end. -/
def split (skip : Nat) : List Char → List (List Char)
  | [] => [[]]
  | c :: cs =>
    match skip with
    | k + 1 => prepend c (split k cs)
    | 0 => if c == '-' && !cs.isEmpty then [] :: split 2 cs else prepend c (split 0 cs)

def joinBackward (a : List Char) : List (List Char) → List (List Char)
  | [] => [a]
  | b :: rest =>
    match a.getLast?, b.head? with
    | some low, some high => if high < low then (a.dropLast ++ b.tail) :: rest else a :: b :: rest
    | _, _ => a :: b :: rest

def ofText (cs : List Char) : CharSet :=
  match (split (if cs.head? == some '!' then 2 else 1) cs).foldr joinBackward [] with
  | ('!' :: first) :: rest => ⟨true, first :: rest⟩
  | chunks => ⟨false, chunks⟩

end CharSet

inductive Piece where
  | char (c : Char)
  | anyChar
  | anyText
  | oneOf (set : CharSet)

def Piece.holds (c : Char) : Piece → Bool
  | .char d => c == d
  | .anyChar => true
  | .anyText => false
  | .oneOf set => set.holds c

def setLength? (cs : List Char) : Option Nat :=
  let mark := if cs.head? == some '!' then 1 else 0
  let first := mark + (if (cs.drop mark).head? == some ']' then 1 else 0)
  ((cs.drop first).idxOf? ']').map (first + ·)

def pieces (cs : List Char) : List Piece :=
  match cs with
  | [] => []
  | '*' :: '*' :: rest => pieces ('*' :: rest)
  | '*' :: rest => .anyText :: pieces rest
  | '?' :: rest => .anyChar :: pieces rest
  | '[' :: rest =>
    match setLength? rest with
    | some n => .oneOf (.ofText (rest.take n)) :: pieces (rest.drop (n + 1))
    | none => .char '[' :: pieces rest
  | c :: rest => .char c :: pieces rest
termination_by cs.length

def emptyRow : List Piece → List Bool
  | [] => [true]
  | .anyText :: ps =>
    let row := emptyRow ps
    row.headD false :: row
  | _ :: ps => false :: emptyRow ps

/-- A row tells of each end of a pattern, the whole pattern first, whether it matches the text that is left. -/
def nextRow (c : Char) : List Piece → List Bool → List Bool
  | .anyText :: ps, b :: below =>
    let row := nextRow c ps below
    (row.headD false || b) :: row
  | p :: ps, _ :: below => (p.holds c && below.headD false) :: nextRow c ps below
  | _, _ => [false]

def accepts (ps : List Piece) (cs : List Char) : Bool :=
  (cs.foldr (fun c row => nextRow c ps row) (emptyRow ps)).headD false

def isMatch (pattern name : String) : Bool := accepts (pieces pattern.toList) name.toList

end Casewise.Glob
