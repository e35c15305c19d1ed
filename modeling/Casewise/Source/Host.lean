import Casewise.Data.Json

namespace Casewise.Host

def isHexDigit (c : Char) : Bool := (Json.hexValue? c).isSome

def parts (mark : Char) (part : List Char) : List Char → List (List Char)
  | [] => [part.reverse]
  | c :: cs => if c = mark then part.reverse :: parts mark [] cs else parts mark (c :: part) cs

def isOctet (cs : List Char) : Bool :=
  !cs.isEmpty && cs.all Char.isDigit && cs.length ≤ 3 && (cs == ['0'] || cs.head? != some '0') &&
    cs.foldl (fun n c => n * 10 + (c.toNat - '0'.toNat)) 0 ≤ 255

def isDotted (cs : List Char) : Bool :=
  let octets := parts '.' [] cs
  octets.length == 4 && octets.all isOctet

def isGroup (cs : List Char) : Bool := !cs.isEmpty && cs.length ≤ 4 && cs.all isHexDigit

def groupCount : Nat := 8

def groups? (cs : List Char) : Option (List (List Char)) :=
  let ps := parts ':' [] cs
  if ps.length < 3 then none
  else
    let last := ps.getLast?.getD []
    if !last.contains '.' then some ps
    else if isDotted last then some (ps.dropLast ++ [['0'], ['0']]) else none

def isEnd (outerEmpty : Bool) (ps : List (List Char)) : Bool := (outerEmpty && ps.length == 1) || ps.all isGroup

/-- Groups between colons. One empty part in the middle stands for the groups that are left out. -/
def isColoned (cs : List Char) : Bool :=
  match groups? cs with
  | none => false
  | some ps =>
    let middle := (ps.drop 1).dropLast
    match middle.idxOf? [] with
    | none => ps.length == groupCount && ps.all isGroup
    | some i =>
      let before := ps.take (i + 1)
      let after := ps.drop (i + 2)
      let given := (before ++ after).filter (!·.isEmpty)
      ps.length ≤ groupCount + 1 && isEnd (before.head? == some []) before && isEnd (after.getLast? == some []) after &&
        given.length < groupCount

def isScoped (cs : List Char) : Bool :=
  match parts '%' [] cs with
  | [address] => isColoned address
  | [address, scope] => !scope.isEmpty && isColoned address
  | _ => false

def isLater (cs : List Char) : Bool :=
  match cs with
  | 'v' :: rest =>
    let version := rest.takeWhile isHexDigit
    !version.isEmpty && (rest.drop version.length).head? == some '.' && version.length + 1 < rest.length
  | _ => false

def bracketed (cs : List Char) : List Char := ((cs.dropWhile (· != '[')).drop 1).takeWhile (· != ']')

def disguised : List Char :=
  [0x2047, 0x2048, 0x2049, 0x2100, 0x2101, 0x2105, 0x2106, 0x2a74, 0xfe13, 0xfe16, 0xfe55, 0xfe56, 0xfe5f, 0xfe6b,
    0xff03, 0xff0f, 0xff1a, 0xff1f, 0xff20].map Char.ofNat

def isWellFormed (cs : List Char) : Bool :=
  let brackets :=
    match cs.contains '[', cs.contains ']' with
    | false, false => true
    | true, true => if (bracketed cs).head? == some 'v' then isLater (bracketed cs) else isScoped (bracketed cs)
    | _, _ => false
  brackets && !cs.any disguised.contains

end Casewise.Host
