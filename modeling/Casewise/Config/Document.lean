import Casewise.Config

namespace Casewise

inductive Setting where
  | data (value : Datum)
  | date (kind : String)

inductive SettingKind where
  | integer
  | float
  | text
  | boolean
  | list
  | table
  | empty
  | date (kind : String)
  deriving DecidableEq, Repr

namespace SettingKind

def name : SettingKind → String
  | .integer => "int"
  | .float => "float"
  | .text => "str"
  | .boolean => "bool"
  | .list => "list"
  | .table => "dict"
  | .empty => "NoneType"
  | .date kind => kind

def foundName : SettingKind → String
  | .boolean => "a boolean"
  | k => k.name

end SettingKind

def Setting.kind : Setting → SettingKind
  | .data .null => .empty
  | .data (.scalar (.number (.int _))) => .integer
  | .data (.scalar (.number (.float _))) => .float
  | .data (.scalar (.number (.nan _))) => .float
  | .data (.scalar (.string _)) => .text
  | .data (.scalar (.boolean _)) => .boolean
  | .data (.list _) => .list
  | .data (.record _) => .table
  | .date kind => .date kind

inductive ConfigSection where
  | table (entries : Bindings Setting)
  | value

abbrev ConfigDocument := Bindings ConfigSection

inductive ConfigError where
  | malformed (message : String)
  | wrongKind (key : String) (expected : List SettingKind) (found : SettingKind)
  | notTable
  | timeoutTooLarge
  deriving DecidableEq, Repr

def ConfigError.message : ConfigError → String
  | .malformed message => message
  | .wrongKind key expected found =>
    "'" ++ key ++ "' must be " ++ " or ".intercalate (expected.map SettingKind.name) ++ ", got " ++ found.foundName
  | .notTable => "a section is no table"
  | .timeoutTooLarge => "a number is too large"

def ConfigError.isReported : ConfigError → Bool
  | .malformed _ => true
  | .wrongKind .. => true
  | _ => false

namespace ConfigSection

def entries : ConfigSection → Except ConfigError (Bindings Setting)
  | .table es => .ok es
  | .value => .error .notTable

def read (es : Bindings Setting) (key : String) (kinds : List SettingKind) : Except ConfigError (Option Datum) :=
  match es.get? key with
  | none => .ok none
  | some s =>
    if s.kind ∈ kinds then
      match s with
      | .data d => .ok (some d)
      | .date _ => .ok none
    else .error (.wrongKind key kinds s.kind)

def readInt (es : Bindings Setting) (key : String) : Except ConfigError (Option Int) := do
  return (← read es key [.integer]).bind Datum.int?

def readList (es : Bindings Setting) (key : String) : Except ConfigError (Option (List Datum)) := do
  return (← read es key [.list]).map Datum.items

def readBool (es : Bindings Setting) (key : String) : Except ConfigError (Option Bool) := do
  return (← read es key [.boolean]).bind Datum.bool?

def readSeconds (es : Bindings Setting) (key : String) : Except ConfigError (Option Number) := do
  match (← read es key [.integer, .float]).bind Datum.number? with
  | none => return none
  | some n =>
    match n.toFloat? with
    | some x => return some (.ofFloat x)
    | none => throw .timeoutTooLarge

end ConfigSection

open ConfigSection

namespace AnalysisConfig

def ofSection (s : ConfigSection) : Except ConfigError AnalysisConfig := do
  let es ← s.entries
  let default : AnalysisConfig := {}
  let timeout ← readSeconds es "timeout"
  let recursionLimit ← readInt es "recursion_limit"
  let fixpointRounds ← readInt es "fixpoint_iterations"
  let sampleCount ← readInt es "sample_count"
  let maxSamples ← readInt es "max_samples"
  let jobs ← readInt es "jobs"
  return {
    timeout := timeout.getD default.timeout
    recursionLimit := recursionLimit.getD default.recursionLimit
    fixpointRounds := fixpointRounds.getD default.fixpointRounds
    sampleCount := sampleCount.getD default.sampleCount
    maxSamples := maxSamples.getD default.maxSamples
    jobs := jobs.map (max 1) }

end AnalysisConfig

namespace BuildConfig

def ofSection (s : ConfigSection) : Except ConfigError BuildConfig := do
  let es ← s.entries
  let default : BuildConfig := {}
  let included ← readList es "include"
  let excluded ← readList es "exclude"
  let failOnError ← readBool es "fail_on_error"
  return {
    included := included.getD default.included
    excluded := excluded.getD default.excluded
    failOnError := failOnError.getD default.failOnError }

end BuildConfig

def Config.ofDocument (d : ConfigDocument) : Except ConfigError Config := do
  let analysis ← (d.get? "analysis").mapM AnalysisConfig.ofSection
  let build ← (d.get? "build").mapM BuildConfig.ofSection
  return ⟨analysis.getD {}, build.getD {}⟩

end Casewise
