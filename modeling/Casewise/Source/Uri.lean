import Casewise.Source.Host
import Casewise.Source.Path
import Casewise.Text.Utf8

namespace Casewise.Uri

def scheme : String := "file:"

def isFile (uri : String) : Bool := scheme.toList.isPrefixOf uri.toList

/-- Decodes text: characters outside ASCII stand for themselves, and the octets between them are read together.
`octets` holds the reversed octets read so far. -/
def decodeChars (octets : List Nat) (cs : List Char) : List Char :=
  match cs with
  | [] => Text.ofOctets octets.reverse
  | '%' :: a :: b :: rest =>
    match Json.unit? [a, b] with
    | some n => decodeChars (n :: octets) rest
    | none => decodeChars ('%'.toNat :: octets) (a :: b :: rest)
  | c :: rest =>
    if c.toNat < 0x80 then decodeChars (c.toNat :: octets) rest
    else Text.ofOctets octets.reverse ++ c :: decodeChars [] rest
termination_by cs.length

def decode (cs : List Char) : List Char := decodeChars [] cs

def endsPath (c : Char) : Bool := c == '?' || c == '#'

def host (cs : List Char) : List Char × List Char :=
  match cs with
  | '/' :: '/' :: cs => cs.span fun c => c != '/' && !endsPath c
  | cs => ([], cs)

def fromDrive : List Char → List Char
  | '/' :: letter :: ':' :: rest =>
    if letter.isAlpha then letter.toLower :: ':' :: rest else '/' :: letter :: ':' :: rest
  | cs => cs

inductive Target where
  | elsewhere
  | file (path : String)
  | malformed
  deriving DecidableEq, Repr

def target (uri : String) : Target :=
  if !isFile uri then .elsewhere
  else
    let cs := (uri.toList.drop scheme.length).filter fun c => c != '\t' && c != '\n' && c != '\r'
    let (host, rest) := host cs
    let place := decode (rest.takeWhile (!endsPath ·))
    if !Host.isWellFormed host then .malformed
    else if host.isEmpty || place.isEmpty then .file (String.ofList (fromDrive place))
    else .file (String.ofList ("//".toList ++ decode host ++ place))

def isImpossible (path : String) : Bool := path.toList.contains '\x00'

end Casewise.Uri
