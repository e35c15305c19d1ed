import Casewise.Data.Json
import Casewise.Program.Expr
import Casewise.Text.Lines

namespace Casewise.Literal

def dropBytes (bytes : Nat) : List Char → List Char
  | [] => []
  | c :: cs => if c.utf8Size ≤ bytes then dropBytes (bytes - c.utf8Size) cs else c :: cs

def takeBytes (bytes : Nat) : List Char → List Char
  | [] => []
  | c :: cs => if c.utf8Size ≤ bytes then c :: takeBytes (bytes - c.utf8Size) cs else []

def piece (lines : List (List Char)) (e : Extent) : List Char :=
  let here := (lines.drop (e.line - 1)).take (e.endLine + 1 - e.line)
  match here with
  | [] => []
  | [line] => dropBytes e.offset (takeBytes e.endOffset line)
  | first :: rest =>
    dropBytes e.offset first ++ '\n' ::
      (rest.dropLast.flatMap (· ++ ['\n']) ++ takeBytes e.endOffset (rest.getLast?.getD []))

def isOctal (c : Char) : Bool := '0' ≤ c && c ≤ '7'

def escape? : Char → Option Nat
  | 'a' => some 7
  | 'b' => some 8
  | 't' => some 9
  | 'n' => some 10
  | 'v' => some 11
  | 'f' => some 12
  | 'r' => some 13
  | '\\' => some 92
  | '\'' => some 39
  | '"' => some 34
  | _ => none

def step (raw : Bool) (c : Char) (rest : List Char) : List Nat × Nat :=
  match c, rest with
  | '\\', d :: more =>
    if raw then ([92, d.toNat], 1)
    else if d = '\n' then ([], 1)
    else if isOctal d then
      let digits := d :: (more.take 2).takeWhile isOctal
      ([digits.foldl (fun n c => n * 8 + (c.toNat - '0'.toNat)) 0 % 256], digits.length)
    else match d, more with
      | 'x', a :: b :: _ =>
        match Json.unit? [a, b] with
        | some n => ([n], 3)
        | none => ([92, d.toNat], 1)
      | d, _ =>
        match escape? d with
        | some n => ([n], 1)
        | none => ([92, d.toNat], 1)
  | c, _ => ([c.toNat], 0)

def octets (raw : Bool) (close : List Char) (cs : List Char) : List Nat × List Char :=
  match cs with
  | [] => ([], [])
  | c :: rest =>
    if close.isPrefixOf (c :: rest) then ([], (c :: rest).drop close.length)
    else
      let (ns, used) := step raw c rest
      let (more, after) := octets raw close (rest.drop used)
      (ns ++ more, after)
termination_by cs.length
decreasing_by simp only [List.length_cons, List.length_drop]; omega

def skipGap : List Char → List Char
  | [] => []
  | '#' :: cs => skipComment cs
  | c :: cs => if c = ' ' || c = '\t' || c = '\n' || c = '\x0c' || c = '\\' then skipGap cs else c :: cs
where
  skipComment : List Char → List Char
    | [] => []
    | '\n' :: cs => skipGap cs
    | _ :: cs => skipComment cs

def allOctets : Nat → List Char → List Nat
  | 0, _ => []
  | fuel + 1, cs =>
    let cs := skipGap cs
    let marks := cs.takeWhile Char.isAlpha
    match cs.drop marks.length with
    | [] => []
    | q :: rest =>
      let close := if [q, q].isPrefixOf rest then [q, q, q] else [q]
      let raw := marks.any fun c => c = 'r' || c = 'R'
      let (ns, after) := octets raw close (rest.drop (close.length - 1))
      ns ++ allOctets fuel after

def octetText (quote : Char) (n : Nat) : List Char :=
  let c := Char.ofNat n
  if c = quote || c = '\\' then ['\\', c]
  else if n = 9 then ['\\', 't']
  else if n = 10 then ['\\', 'n']
  else if n = 13 then ['\\', 'r']
  else if n < 32 || 127 ≤ n then '\\' :: 'x' :: Text.hexText 2 n
  else [c]

def octetsText (ns : List Nat) : String :=
  let quote := if ns.contains 39 && !ns.contains 34 then '"' else '\''
  String.ofList (['b', quote] ++ ns.flatMap (octetText quote) ++ [quote])

def imaginaryText (cs : List Char) : String :=
  let x := (Numeral.float? (cs.dropLast.filter (· != '_'))).getD 0.0
  let t := (floatText ⟨"inf", "nan"⟩ x).toList
  let whole := if ['.', '0'].isSuffixOf t then t.take (t.length - 2) else t
  String.ofList (whole ++ ['j'])

def spelling (cls : String) (cs : List Char) : String :=
  match cls with
  | "bytes" => octetsText (allOctets cs.length cs)
  | "complex" => imaginaryText cs
  | _ => "Ellipsis"

end Casewise.Literal
