import JourneyPlanner.Config.Params
import JourneyPlanner.Config.Variable

/-!
The configuration of a solver: the parameters of the requests that have none of their own, and how
many workers solve a batch. An environment variable overrides the number of workers.
-/

namespace JourneyPlanner

structure SolverConfig where
  params : RequestParams := {}
  nbWorkers : Nat := 1
deriving BEq

/-- Why a configuration could not be had. -/
inductive ConfigError where
  | parse (fault : Json.Fault)
  | parseFile (fault : Json.Fault)
  | openFile
deriving DecidableEq

namespace ConfigError

def message : ConfigError → String
  | parse _ => "Error parsing solver config"
  | parseFile _ => "Error reading config file"
  | openFile => "Error opening config file"

end ConfigError

namespace SolverConfig

/-- The variable that overrides the number of workers. -/
def workersVariable : String := "RAPTOR_NB_WORKERS"

/-- The largest number of workers that can be given. -/
def maxWorkers : Nat := 18446744073709551615

def readWorkers (text : String) : Option Nat :=
  Text.numeral? maxWorkers text.toList

def override (c : SolverConfig) (workers : Option ByteArray) : SolverConfig :=
  { c with nbWorkers := Config.readVariable workers c.nbWorkers readWorkers }

open Json in
def record : Record SolverConfig where
  fields := [
    ("request_params", fun s => do return { s with params := ← RequestParams.reader }),
    ("nb_workers", fun s => do return { s with nbWorkers := ← Reader.natural maxWorkers })]
  closed := true

def reader : Json.Reader SolverConfig :=
  record.read {} some

/-- A configuration from its text, and the value of the variable. -/
def parse (text : String) (workers : Option ByteArray) : Except ConfigError SolverConfig :=
  match reader.document text with
  | .ok config => .ok (config.override workers)
  | .error fault => .error (.parse fault)

/-- A configuration from the content of a file; none when the file cannot be opened. -/
def ofFile (content : Option String) (workers : Option ByteArray) :
    Except ConfigError SolverConfig :=
  match content with
  | none => .error .openFile
  | some text =>
      match reader.document text with
      | .ok config => .ok (config.override workers)
      | .error fault => .error (.parseFile fault)

end SolverConfig

end JourneyPlanner
