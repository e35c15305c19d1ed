namespace Casewise.Dotted

def split (part : List Char) : List Char → List (List Char)
  | [] => [part.reverse]
  | c :: cs => if c = '.' then part.reverse :: split [] cs else split (c :: part) cs

def parts (name : String) : List String := (split [] name.toList).map String.ofList

def join (parts : List String) : String := ".".intercalate parts

def last (name : String) : String := ((parts name).getLast?).getD ""

def isUnder (path name : String) : Bool := (path ++ ".").toList.isPrefixOf name.toList

def after (name : String) (count : Nat) : String := String.ofList (name.toList.drop count)

end Casewise.Dotted
