import Casewise.Data.Datum

namespace Casewise

structure AnalysisConfig where
  timeout : Number := .float 5.0
  recursionLimit : Int := 16
  fixpointRounds : Int := 8
  sampleCount : Int := 3
  maxSamples : Int := 32
  jobs : Option Int := none

structure BuildConfig where
  included : List Datum := [.text "**/*.py"]
  excluded : List Datum := []
  failOnError : Bool := false

structure Config where
  analysis : AnalysisConfig := {}
  build : BuildConfig := {}

namespace Config

def fileName : String := "nudo.toml"

def enclosing (directory : List String) : List (List String) :=
  ((List.range (directory.length + 1)).map directory.take).reverse

def find? (isThere : List String → Bool) (directory : List String) : Option (List String) :=
  ((enclosing directory).map (· ++ [fileName])).find? isThere

end Config

end Casewise
