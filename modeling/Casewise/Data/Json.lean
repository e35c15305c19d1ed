import Casewise.Data.Datum
import Casewise.Number.Reading

namespace Casewise.Json

inductive ReadError where
  | malformed
  | tooLong
  deriving DecidableEq, Repr

def isBlank (c : Char) : Bool := c == ' ' || c == '\t' || c == '\n' || c == '\r'

def skipBlanks (cs : List Char) : List Char := cs.dropWhile isBlank

def hexValue? (c : Char) : Option Nat :=
  if '0' ≤ c ∧ c ≤ '9' then some (c.toNat - 48)
  else if 'a' ≤ c ∧ c ≤ 'f' then some (c.toNat - 87)
  else if 'A' ≤ c ∧ c ≤ 'F' then some (c.toNat - 55)
  else none

def unit? (cs : List Char) : Option Nat := cs.foldlM (fun n c => (hexValue? c).map (n * 16 + ·)) 0

def escape? : Char → Option Nat
  | '"' => some 34
  | '\\' => some 92
  | '/' => some 47
  | 'b' => some 8
  | 'f' => some 12
  | 'n' => some 10
  | 'r' => some 13
  | 't' => some 9
  | _ => none

def units? : List Char → Option (List Nat × List Char)
  | [] => none
  | '"' :: rest => some ([], rest)
  | '\\' :: 'u' :: a :: b :: c :: d :: rest => do
    let u ← unit? [a, b, c, d]
    let (us, rest) ← units? rest
    return (u :: us, rest)
  | '\\' :: e :: rest => do
    let u ← escape? e
    let (us, rest) ← units? rest
    return (u :: us, rest)
  | c :: rest => do
    if c.toNat < 32 then none
    let (us, rest) ← units? rest
    return (c.toNat :: us, rest)

def unitChar (u : Nat) : Char := if 0xd800 ≤ u ∧ u < 0xe000 then Char.ofNat 0xfffd else Char.ofNat u

def joinUnits : List Nat → List Char
  | [] => []
  | [u] => [unitChar u]
  | u :: v :: us =>
    if 0xd800 ≤ u ∧ u < 0xdc00 ∧ 0xdc00 ≤ v ∧ v < 0xe000 then
      Char.ofNat (0x10000 + (u - 0xd800) * 0x400 + (v - 0xdc00)) :: joinUnits us
    else unitChar u :: joinUnits (v :: us)

def text? (cs : List Char) : Option (String × List Char) :=
  (units? cs).map fun (us, rest) => (String.ofList (joinUnits us), rest)

def whole (cs : List Char) : List Char :=
  match cs with
  | '0' :: _ => ['0']
  | _ => cs.takeWhile Char.isDigit

def fraction : List Char → List Char
  | '.' :: cs =>
    match cs.takeWhile Char.isDigit with
    | [] => []
    | ds => '.' :: ds
  | _ => []

def exponent : List Char → List Char
  | e :: cs =>
    if Numeral.isExponentMark e then
      let sign := if cs.head? == some '-' || cs.head? == some '+' then cs.take 1 else []
      match (cs.drop sign.length).takeWhile Char.isDigit with
      | [] => []
      | ds => e :: (sign ++ ds)
    else []
  | [] => []

def signed (negative : Bool) (x : Float) : Float := if negative then -x else x

def magnitude (negative : Bool) (cs : List Char) : Except ReadError (Datum × List Char) :=
  let ds := whole cs
  let rest := cs.drop ds.length
  let point := fraction rest
  let power := exponent (rest.drop point.length)
  let rest := rest.drop (point.length + power.length)
  if ds.isEmpty then .error .malformed
  else if point.isEmpty && power.isEmpty then
    match Numeral.integer? ds with
    | some n => .ok (.int (if negative then -n else n), rest)
    | none => .error .tooLong
  else
    match Numeral.float? (ds ++ point ++ power) with
    | some x => .ok (.scalar (.number (.float (signed negative x))), rest)
    | none => .error .malformed

def infinity (negative : Bool) : Datum := .scalar (.number (.float (Binary.signed negative Binary.infinityBits)))

def words : List (String × Datum) :=
  [("null", .null), ("true", .bool true), ("false", .bool false),
    ("NaN", .scalar (.number (.nan none))), ("Infinity", infinity false), ("-Infinity", infinity true)]

def word? (cs : List Char) : Option (Datum × List Char) :=
  words.findSome? fun (w, d) => if w.toList.isPrefixOf cs then some (d, cs.drop w.length) else none

def orMalformed {α : Type} : Option α → Except ReadError α
  | some a => .ok a
  | none => .error .malformed

mutual

/-- Reads the data at the start of a text. The fuel bounds the steps; each one takes a character. -/
def value : Nat → List Char → Except ReadError (Datum × List Char)
  | 0, _ => .error .malformed
  | n + 1, cs =>
    match cs with
    | '"' :: rest => do
      let (s, rest) ← orMalformed (text? rest)
      return (.text s, rest)
    | '\x7b' :: rest =>
      match skipBlanks rest with
      | '\x7d' :: rest => .ok (.record [], rest)
      | rest => members n [] rest
    | '[' :: rest =>
      match skipBlanks rest with
      | ']' :: rest => .ok (.list [], rest)
      | rest => items n [] rest
    | _ =>
      match word? cs with
      | some found => .ok found
      | none =>
        match cs with
        | '-' :: rest => magnitude true rest
        | _ => magnitude false cs

def items : Nat → List Datum → List Char → Except ReadError (Datum × List Char)
  | 0, _, _ => .error .malformed
  | n + 1, done, cs => do
    let (d, rest) ← value n cs
    match skipBlanks rest with
    | ']' :: rest => return (.list (d :: done).reverse, rest)
    | ',' :: rest => items n (d :: done) (skipBlanks rest)
    | _ => throw .malformed

def members : Nat → Bindings Datum → List Char → Except ReadError (Datum × List Char)
  | 0, _, _ => .error .malformed
  | n + 1, done, cs => do
    match cs with
    | '"' :: rest =>
      let (key, rest) ← orMalformed (text? rest)
      match skipBlanks rest with
      | ':' :: rest =>
        let (d, rest) ← value n (skipBlanks rest)
        match skipBlanks rest with
        | '\x7d' :: rest => return (.record (done.set key d), rest)
        | ',' :: rest => members n (done.set key d) (skipBlanks rest)
        | _ => throw .malformed
      | _ => throw .malformed
    | _ => throw .malformed

end

def read (text : String) : Except ReadError Datum := do
  let cs := text.toList
  let (d, rest) ← value (cs.length + 1) (skipBlanks cs)
  if (skipBlanks rest).isEmpty then return d
  throw .malformed

def margin (depth : Nat) : String := String.ofList (List.replicate (2 * depth) ' ')

def block (opening closing : String) (depth : Nat) (lines : List String) : String :=
  if lines.isEmpty then opening ++ closing
  else opening ++ "\n" ++ ",\n".intercalate (lines.map (margin (depth + 1) ++ ·)) ++ "\n" ++ margin depth ++ closing

mutual

def layoutAt? (depth : Nat) : Datum → Option String
  | .null => some "null"
  | .scalar s => s.text?
  | .list ds => (layoutItems? (depth + 1) ds).map (block "[" "]" depth)
  | .record fs => (layoutFields? (depth + 1) fs).map (block "\x7b" "\x7d" depth)

def layoutItems? (depth : Nat) : List Datum → Option (List String)
  | [] => some []
  | d :: ds => do
    let t ← layoutAt? depth d
    return t :: (← layoutItems? depth ds)

def layoutFields? (depth : Nat) : List (String × Datum) → Option (List String)
  | [] => some []
  | (k, d) :: fs => do
    let t ← layoutAt? depth d
    return (Text.escaped k ++ ": " ++ t) :: (← layoutFields? depth fs)

end

def layout? (d : Datum) : Option String := layoutAt? 0 d

end Casewise.Json
