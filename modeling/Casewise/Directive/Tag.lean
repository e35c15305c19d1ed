import Casewise.Directive.Parse
import Casewise.Text.Blank

namespace Casewise

structure Tag where
  position : Nat
  name : List Char
  text : List Char
  deriving DecidableEq, Repr

namespace Tag

def mark : List Char := "@nudo:".toList

def name? (cs : List Char) : Option (List Char) :=
  if mark.isPrefixOf cs then some ((cs.drop mark.length).takeWhile Text.isWordChar) else none

def split (position : Nat) : List Char → List Char × List Tag
  | [] => ([], [])
  | c :: cs =>
    let (text, tags) := split (position + 1) cs
    match name? (c :: cs) with
    | some name => ([], ⟨position, name, text.drop (mark.length - 1 + name.length)⟩ :: tags)
    | none => (c :: text, tags)

def all (line : List Char) : List Tag := (split 0 line).2

def stop (t : Tag) : Nat := t.position + mark.length + t.name.length

def beforeQuotes? (reversed : List Char) : Option (List Char) :=
  match reversed with
  | '"' :: '"' :: '"' :: rest => some rest
  | '\'' :: '\'' :: '\'' :: rest => some rest
  | _ => none

/-- The text of a directive: no blanks at its end, and no quotes that close a docstring. -/
def body (t : Tag) : List Char :=
  let reversed := t.text.reverse.dropWhile Text.isBlank
  (((beforeQuotes? reversed).getD reversed).dropWhile Text.isBlank).reverse

def span (t : Tag) (file : String) (line : Nat) : Span :=
  .onLine file line (t.position + 1) (t.stop + t.body.length)

def directive (t : Tag) (file : String) (line : Nat) : Except (List Diagnostic) Directive :=
  let name := String.ofList t.name
  match DirectiveKind.ofName? name with
  | some kind => Directive.parse kind t.body (t.span file line) (t.stop + 1)
  | none => .error [(DirectiveError.unknownKind name).diagnostic (t.span file line)]

def isTagged (text : String) : Bool :=
  (all text.toList).any fun t => (DirectiveKind.ofName? (String.ofList t.name)).isSome

end Tag

structure Found where
  directives : List Directive := []
  errors : List Diagnostic := []

namespace Found

def append (a b : Found) : Found := ⟨a.directives ++ b.directives, a.errors ++ b.errors⟩

instance : Append Found := ⟨append⟩

def ofTag (t : Tag) (file : String) (line : Nat) : Found :=
  match t.directive file line with
  | .ok d => ⟨[d], []⟩
  | .error es => ⟨[], es⟩

def concat (fs : List Found) : Found := fs.foldr append {}

def ofLine (text : List Char) (file : String) (line : Nat) : Found :=
  concat ((Tag.all text).map fun t => ofTag t file line)

end Found

end Casewise
