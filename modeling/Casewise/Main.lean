import Casewise.Command.Run
import Casewise.Concrete.Execute
import Casewise.Data.Tagged
import Casewise.Program.OfTree

/-!
The command line. Next to a program lies what a parser made of it, and next to a file of settings what it holds, as
JSON in a file of the same name with `.json` at its end. Concrete cases are run by the evaluator of this library.
-/

namespace Casewise.Main

open Casewise.Command

def beside (path : String) : IO (Option Datum) := do
  try
    match Json.read (← IO.FS.readFile (path ++ ".json")) with
    | .ok d => return some (Tagged.plain d)
    | .error _ => return none
  catch _ => return none

def document : Datum → ConfigDocument
  | .record fields => fields.map fun (name, d) =>
    (name, match d with
      | .record entries => .table (entries.map fun (k, v) => (k, .data v))
      | _ => .value)
  | _ => []

def projectFile (path : String) : IO ProjectFile := do
  let text ← IO.FS.readFile path
  let found ← beside path
  return { text, parsed := found.bind (Tree.parsed? text), settings := .ok ((found.map document).getD []) }

def entry? (parts : List String) : IO (Option (List String × ProjectEntry)) := do
  let path := Path.text parts
  try
    return some (parts, .file (← projectFile path))
  catch _ => return none

def below (directory : List String) : IO (List (List String)) := do
  let found ← (← IO.FS.realPath (Path.text directory)).walkDir
  return found.toList.map fun p => Path.resolve [] p.toString

def paths (working : List String) : Command → IO (List (List String))
  | .infer o => do
    let files := (o.files ++ o.config.toList).map (Path.resolve working)
    let start := (files.head?.getD working).dropLast
    return files ++ (Config.enclosing start).map (· ++ [Config.fileName])
  | .check path _ => do
    let directory := Path.resolve working path
    return (← below directory) ++ (Config.enclosing directory).map (· ++ [Config.fileName])

def project (working : List String) (c : Command) : IO Project := do
  let entries ← (← paths working c).filterMapM entry?
  let roots := match c with
    | .check path _ => [(Path.resolve working path, ProjectEntry.directory)]
    | .infer _ => []
  return ⟨working, roots ++ entries⟩

def answer (p : Project) (r : Sandbox.Request) : Sandbox.Answer :=
  let program := p.entries.findSome? fun e => match e.2 with
    | .file ⟨text, some (.ok program), _⟩ => if Project.readText text = r.source then some program else none
    | _ => none
  match program.map fun program => Concrete.execute program r with
  | some (.ok a) => a
  | _ => .crashed "the case goes beyond what can be run here"

def rounds : Nat := 100000

def writeFile (path text : String) : IO Unit := do
  IO.FS.createDirAll (Path.text (Path.resolve [] path).dropLast)
  IO.FS.writeFile path text

def stopText? : Stop → Option String
  | .failed => none
  | .usage e => some ("Error: " ++ e.message)
  | .analysis _ => some "error: the analysis could not be finished"
  | .config e => some ("error: " ++ e.message)
  | .notFile path => some ("error: " ++ Path.text path ++ " is no file")

end Casewise.Main

open Casewise in
def main (words : List String) : IO UInt32 := do
  match Command.ofWords words with
  | .error e =>
    IO.eprintln ("Error: " ++ e.message)
    return 2
  | .ok c =>
    let working := Path.resolve [] (← IO.currentDir).toString
    let project ← Main.project working c
    let (stop, session) := Command.converse project words (Main.answer project) Main.rounds []
    session.written.forM fun (path, text) => Main.writeFile path text
    IO.eprint session.errors
    IO.print session.output
    match stop with
    | none => return 0
    | some stop =>
      (Main.stopText? stop).forM IO.eprintln
      return stop.status.toUInt32
