namespace Casewise.Path

def split (part : List Char) : List Char → List (List Char)
  | [] => [part.reverse]
  | c :: cs => if c = '/' then part.reverse :: split [] cs else split (c :: part) cs

def follow (directory : List String) (parts : List String) : List String :=
  parts.foldl (fun place part =>
    if part = "" || part = "." then place
    else if part = ".." then place.dropLast
    else place ++ [part]) directory

def partsOf (path : String) : List String := (split [] path.toList).map String.ofList

def isAbsolute (path : String) : Bool := path.toList.head? == some '/'

def resolve (working : List String) (path : String) : List String :=
  follow (if isAbsolute path then [] else working) (partsOf path)

def text (parts : List String) : String := "/" ++ "/".intercalate parts

def directory (working : List String) (path : String) : String := text (resolve working path).dropLast

def root (path : String) : String :=
  match path.toList with
  | '/' :: '/' :: '/' :: _ => "/"
  | '/' :: '/' :: _ => "//"
  | '/' :: _ => "/"
  | _ => ""

def named (path : String) : List String := (partsOf path).filter fun p => p != "" && p != "."

def write (root : String) (parts : List String) : String :=
  if root = "" && parts.isEmpty then "." else root ++ "/".intercalate parts

def stem (name : String) : String :=
  let cs := name.toList
  let ending := cs.reverse.takeWhile (· != '.')
  let before := cs.length - ending.length - 1
  if 0 < before && !ending.isEmpty && ending.length < cs.length then String.ofList (cs.take before) else name

def withEnding (ending path : String) : String := stem ((named path).getLast?.getD "") ++ ending

def beside (path name : String) : String := write (root path) ((named path).dropLast ++ [name])

def within (directory name : String) : String := write (root directory) (named directory ++ [name])

end Casewise.Path
