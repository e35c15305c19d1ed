namespace Casewise

structure InferOptions where
  files : List String := []
  locations : Bool := false
  emitStubs : Bool := false
  directory : Option String := none
  json : Bool := false
  config : Option String := none
  deriving DecidableEq, Repr

structure CheckOptions where
  paths : List String := []
  failOnError : Bool := false
  deriving DecidableEq, Repr

inductive Command where
  | infer (options : InferOptions)
  | check (path : String) (failOnError : Bool)
  deriving DecidableEq, Repr

inductive UsageError where
  | noCommand
  | noSuchCommand (name : String)
  | noSuchOption (name : String)
  | noValue (option : String)
  | needlessValue (option : String)
  | badChoice (option value : String)
  | noFiles
  | extraArgument (word : String)
  | noFile (path : String)
  | notFile (path : String)
  | notDirectory (path : String)
  deriving DecidableEq, Repr

def UsageError.message : UsageError → String
  | .noCommand => "Missing command."
  | .noSuchCommand name => "No such command '" ++ name ++ "'."
  | .noSuchOption name => "No such option: " ++ name
  | .noValue option => "Option '" ++ option ++ "' requires an argument."
  | .needlessValue option => "Option '" ++ option ++ "' does not take a value."
  | .badChoice option value => "Invalid value for '" ++ option ++ "': '" ++ value ++ "' is not one of 'text', 'json'."
  | .noFiles => "Missing argument 'FILES...'."
  | .extraArgument word => "Got unexpected extra argument (" ++ word ++ ")"
  | .noFile path => "Path '" ++ path ++ "' does not exist."
  | .notFile path => "File '" ++ path ++ "' is a directory."
  | .notDirectory path => "Directory '" ++ path ++ "' is a file."

namespace Command

inductive Word where
  | argument (text : String)
  | option (name : String) (value : Option String)
  | rest

def Word.ofText (text : String) : Word :=
  let cs := text.toList
  if text = "--" then .rest
  else if "--".toList.isPrefixOf cs then
    let name := String.ofList (cs.takeWhile (· != '='))
    match cs.dropWhile (· != '=') with
    | [] => .option name none
    | _ :: value => .option name (some (String.ofList value))
  else if cs.head? == some '-' && text != "-" then .option text none
  else .argument text

structure Grammar (ω : Type) where
  argument : ω → String → ω
  flag? : ω → String → Option ω
  takesValue : String → Bool
  value : ω → String → String → Except UsageError ω

def scan {ω : Type} (g : Grammar ω) (o : ω) (words : List String) : Except UsageError ω :=
  match words with
  | [] => .ok o
  | w :: rest =>
    match Word.ofText w with
    | .rest => .ok (rest.foldl g.argument o)
    | .argument text => scan g (g.argument o text) rest
    | .option name given =>
      if g.takesValue name then
        match given with
        | some v => do scan g (← g.value o name v) rest
        | none =>
          match rest with
          | v :: more => do scan g (← g.value o name v) more
          | [] => .error (.noValue name)
      else
        match g.flag? o name with
        | none => .error (.noSuchOption name)
        | some o => if given.isSome then .error (.needlessValue name) else scan g o rest
termination_by words.length

def inferGrammar : Grammar InferOptions where
  argument o file := { o with files := o.files ++ [file] }
  flag? o name :=
    match name with
    | "--locations" => some { o with locations := true }
    | "--emit-stubs" => some { o with emitStubs := true }
    | _ => none
  takesValue name := ["--out", "--format", "--config"].contains name
  value o name v :=
    match name, v with
    | "--out", _ => .ok { o with directory := some v }
    | "--config", _ => .ok { o with config := some v }
    | _, "text" => .ok { o with json := false }
    | _, "json" => .ok { o with json := true }
    | _, _ => .error (.badChoice name v)

def checkGrammar : Grammar CheckOptions where
  argument o path := { o with paths := o.paths ++ [path] }
  flag? o name := if name = "--fail-on-error" then some { o with failOnError := true } else none
  takesValue _ := false
  value o _ _ := .ok o

def ofWords (words : List String) : Except UsageError Command :=
  match words.dropWhile fun w => w = "-v" || w = "--verbose" with
  | [] => .error .noCommand
  | "infer" :: rest => do
    let o ← scan inferGrammar {} rest
    if o.files.isEmpty then throw .noFiles
    return .infer o
  | "check" :: rest => do
    let o ← scan checkGrammar {} rest
    match o.paths with
    | [] => return .check "." o.failOnError
    | [path] => return .check path o.failOnError
    | _ :: extra :: _ => throw (.extraArgument extra)
  | name :: _ => .error (.noSuchCommand name)

end Command

end Casewise
