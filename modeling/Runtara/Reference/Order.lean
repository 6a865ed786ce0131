/-
  `validate_execution_order` (`validation.rs`): a step may only refer to steps from which it can
  be reached.
-/
import Runtara.Reference.Expression
import Runtara.Search.Discover

namespace Runtara

/-- `trim_matches` with the two quotes. -/
def trimQuotes (cs : List Char) : List Char :=
  let quote (c : Char) : Bool := c = '\'' || c = '"'
  ((cs.dropWhile quote).reverse.dropWhile quote).reverse

def extractStepIdFromReference (path : String) : Option StepId :=
  match "steps[".toList.isPrefixOf path.toList, path.toList.contains ']' with
  | true, true => some (String.ofList (trimQuotes ((path.toList.drop 6).takeWhile (· ≠ ']'))))
  | _, _ =>
    if "steps.".toList.isPrefixOf path.toList then
      some (String.ofList ((path.toList.drop 6).takeWhile (· ≠ '.')))
    else none

variable {ν : Type}

mutual

def extractStepIdsFromMappingValue : MappingValue ν → List StepId
  | .reference path => (extractStepIdFromReference path).toList
  | .immediate _ => []
  | .object fields => extractStepIdsFromFields fields
  | .array items => extractStepIdsFromItems items
  | .template _ => []

def extractStepIdsFromFields : List (String × MappingValue ν) → List StepId
  | [] => []
  | (_, v) :: fields => extractStepIdsFromMappingValue v ++ extractStepIdsFromFields fields

def extractStepIdsFromItems : List (MappingValue ν) → List StepId
  | [] => []
  | v :: items => extractStepIdsFromMappingValue v ++ extractStepIdsFromItems items

end

namespace ExprGraph

end ExprGraph

end Runtara
