import Casewise.Analysis
import Casewise.Config.Document
import Casewise.Source.Path

namespace Casewise

structure ProjectFile where
  text : String
  parsed : Option (Except SyntaxError Program) := none
  settings : Except String ConfigDocument := .ok []

inductive ProjectEntry where
  | file (content : ProjectFile)
  | directory

structure Project where
  working : List String := []
  entries : List (List String × ProjectEntry)

namespace Project

def entry? (p : Project) (path : List String) : Option ProjectEntry :=
  (p.entries.find? (·.1 == path)).map (·.2)

def file? (p : Project) (path : List String) : Option ProjectFile :=
  match p.entry? path with
  | some (.file f) => some f
  | _ => none

def isThere (p : Project) (path : List String) : Bool := p.entries.any fun e => path.isPrefixOf e.1

def isFile (p : Project) (path : List String) : Bool := (p.file? path).isSome

def resolve (p : Project) (path : String) : List String := Path.resolve p.working path

def configPath? (p : Project) (start : String) : Option (List String) :=
  let path := p.resolve start
  Config.find? p.isThere (if p.isFile path then path.dropLast else path)

/-- Lines that end in a carriage return end in a newline when a file is read. -/
def normalNewlines : List Char → List Char
  | [] => []
  | '\r' :: '\n' :: cs => '\n' :: normalNewlines cs
  | '\r' :: cs => '\n' :: normalNewlines cs
  | c :: cs => c :: normalNewlines cs

def readText (text : String) : String := String.ofList (normalNewlines text.toList)

def source (name : String) (path : List String) (f : ProjectFile) : SourceFile :=
  ⟨name, readText f.text, f.parsed, some (Path.text path.dropLast)⟩

def endsIn (ending name : String) : Bool := ending.toList.isSuffixOf name.toList

def pathLe (a b : List String) : Bool := !decide (b < a)

def below (p : Project) (directory : List String) : List (List String) :=
  let inside := p.entries.filterMap fun e => if directory.isPrefixOf e.1 then some (e.1.drop directory.length) else none
  distinctBy (· == ·) (inside.flatMap fun path => (List.range path.length).map fun n => path.take (n + 1))

def programs (p : Project) (directory : List String) : List (List String) :=
  sortBy pathLe ((p.below directory).filter fun path => endsIn ".py" (path.getLast?.getD ""))

end Project

end Casewise
