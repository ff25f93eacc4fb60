import JourneyPlanner.Decimal.Shortest
import JourneyPlanner.Time.Duration

/-!
The parameters of a search that are refused, and what is said about them.
-/

namespace JourneyPlanner

inductive InvalidParameter where
  | walkSpeed (value : Float)
  | dayRange (value max : Nat)
  | emptySearchWindow
  | zeroIterationStep
  | durationTooLong (name : String) (value max : Duration)
  | modeFilter (reason : String)
  | reluctance (name : String) (value : Float)

def InvalidParameter.message : InvalidParameter → String
  | walkSpeed value =>
      "walk speed must be a finite and positive number of meters per second, got " ++
        Decimal.plain value
  | dayRange value max =>
      "day range must be between 2 and " ++ Text.decimal max ++ ", got " ++ Text.decimal value
  | emptySearchWindow => "the search window must not be empty"
  | zeroIterationStep => "the iteration step must not be zero"
  | durationTooLong name value max =>
      name ++ " is " ++ value.render ++ ", it must not exceed " ++ max.render
  | modeFilter reason => "malformed mode filter : " ++ reason
  | reluctance name value =>
      name ++ " must be a finite and non negative number, got " ++ Decimal.plain value

end JourneyPlanner
