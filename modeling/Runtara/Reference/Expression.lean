/-
  The expressions of a workflow.

  `ExprGraph` is the DSL graph as far as its steps and edges hold expressions
  (`runtara-dsl/src/schema_types.rs`): mapping values, conditions, and the outputs of `Switch`
  cases, which are JSON in which the runtime resolves references (`switch_helpers.rs`). It also
  resolves the reference envelopes in what the input mapping of an agent gives, so those that are
  written into its literals count.
  An expression is looked at through its leaves, the places where it reads the scope.
-/
import Runtara.Expr.AgentInput

namespace Runtara

open Json

/-! ### Mapping values and conditions -/

/-- `MappingValue`. -/
inductive MappingValue (ν : Type) where
  | reference (path : String)
  | immediate (value : Value ν)
  | object (fields : List (String × MappingValue ν))
  | array (items : List (MappingValue ν))
  | template (text : String)

abbrev InputMapping (ν : Type) := List (String × MappingValue ν)

/-- `ConditionExpression`: an operation on arguments, which are conditions or values, or a
value. -/
inductive ConditionExpression (ν : Type) where
  | operation (arguments : List (ConditionExpression ν))
  | value (v : MappingValue ν)

/-- A place where an expression reads the scope: a reference path, a template, a reference in the
output of a `Switch` case, or a reference envelope in the input of an agent. -/
inductive Leaf where
  | path (path : String)
  | template (text : String)
  | output (path : String)
  | envelope (path : String)
deriving DecidableEq, Repr

variable {ν : Type}

mutual

def MappingValue.leaves : MappingValue ν → List Leaf
  | .reference path => [.path path]
  | .immediate _ => []
  | .object fields => MappingValue.fieldLeaves fields
  | .array items => MappingValue.itemLeaves items
  | .template text => [.template text]

def MappingValue.fieldLeaves : List (String × MappingValue ν) → List Leaf
  | [] => []
  | (_, v) :: fields => v.leaves ++ MappingValue.fieldLeaves fields

def MappingValue.itemLeaves : List (MappingValue ν) → List Leaf
  | [] => []
  | v :: items => v.leaves ++ MappingValue.itemLeaves items

end

def InputMapping.leaves (mapping : InputMapping ν) : List Leaf := mapping.flatMap (·.2.leaves)

mutual

def ConditionExpression.leaves : ConditionExpression ν → List Leaf
  | .operation arguments => ConditionExpression.argumentLeaves arguments
  | .value v => v.leaves

def ConditionExpression.argumentLeaves : List (ConditionExpression ν) → List Leaf
  | [] => []
  | c :: arguments => c.leaves ++ ConditionExpression.argumentLeaves arguments

end

mutual

/-- The references that `process_switch_output` resolves in an output. -/
def switchOutputLeaves : Value ν → List Leaf
  | .object entries =>
    match lookupEntry "valueType" entries, lookupEntry "value" entries with
    | some valueType, some value =>
      match valueType.asStr with
      | some "reference" => (value.asStr.map Leaf.output).toList
      | some "immediate" => []
      | _ => switchEntryLeaves entries
    | _, _ => switchEntryLeaves entries
  | .array items => switchItemLeaves items
  | _ => []

def switchEntryLeaves : Entries ν → List Leaf
  | [] => []
  | (_, v) :: entries => switchOutputLeaves v ++ switchEntryLeaves entries

def switchItemLeaves : List (Value ν) → List Leaf
  | [] => []
  | v :: items => switchOutputLeaves v ++ switchItemLeaves items

end

/-! ### Envelopes in the input of an agent -/

mutual

/-- What a mapping value gives, as far as it is written down: an empty object, into which dotted
keys can be inserted, stands for what a reference finds, the empty text for what a template
renders. -/
def MappingValue.payload : MappingValue ν → Value ν
  | .reference _ => .object []
  | .template _ => .string ""
  | .immediate value => value
  | .object fields => .object (MappingValue.fieldPayloads [] fields)
  | .array items => .array (MappingValue.itemPayloads items)

def MappingValue.fieldPayloads (output : Entries ν) : List (String × MappingValue ν) → Entries ν
  | [] => output
  | (k, v) :: fields => MappingValue.fieldPayloads (insertEntry k v.payload output) fields

def MappingValue.itemPayloads : List (MappingValue ν) → List (Value ν)
  | [] => []
  | v :: items => v.payload :: MappingValue.itemPayloads items

end

def InputMapping.payload (mapping : InputMapping ν) : Value ν :=
  .object (mapping.foldl (fun output e => insertNested output e.1 e.2.payload) [])

mutual

/-- The references that `resolve_nested_references` resolves in a value. -/
def envelopeLeaves : Value ν → List Leaf
  | .object es =>
    if isReferenceEnvelope es then
      (((lookupEntry "value" es).bind Value.asStr).map Leaf.envelope).toList
    else fieldEnvelopes (envelopeType es = some "immediate") (keptArguments es) es
  | .array items => itemEnvelopes items
  | _ => []

/-- Those in the fields of an object: an immediate envelope is entered at its value, an operation at
its arguments, anything else everywhere. -/
def fieldEnvelopes (immediate : Bool) (kept : Option (ℕ → Value ν → Bool)) :
    List (String × Value ν) → List Leaf
  | [] => []
  | (k, .array args) :: es =>
    (if immediate then if k = "value" then itemEnvelopes args else []
      else match kept with
        | some kept => if k = "arguments" then argumentEnvelopes kept 0 args else []
        | none => itemEnvelopes args)
      ++ fieldEnvelopes immediate kept es
  | (k, v) :: es =>
    (if immediate then if k = "value" then envelopeLeaves v else []
      else match kept with
        | some _ => []
        | none => envelopeLeaves v)
      ++ fieldEnvelopes immediate kept es

def argumentEnvelopes (kept : ℕ → Value ν → Bool) (index : ℕ) : List (Value ν) → List Leaf
  | [] => []
  | arg :: args =>
    (if kept index arg then [] else envelopeLeaves arg) ++ argumentEnvelopes kept (index + 1) args

def itemEnvelopes : List (Value ν) → List Leaf
  | [] => []
  | v :: items => envelopeLeaves v ++ itemEnvelopes items

end

/-! ### Steps -/

/-- The expressions of a `SwitchConfig`. -/
structure SwitchExpressions (ν : Type) where
  value : MappingValue ν
  outputs : List (Value ν)
  default : Option (Value ν)

/-- The expressions of an `AiAgentConfig` that become part of a call. -/
structure AiAgentExpressions (ν : Type) where
  systemPrompt : MappingValue ν
  userPrompt : MappingValue ν
  model : Option (MappingValue ν)
  temperature : Option (MappingValue ν)
  maxTokens : Option (MappingValue ν)
  conversationId : Option (MappingValue ν)

/-- `Step`, its expressions and its nested graphs, over an arbitrary type of graphs. -/
inductive ExprKindOf (ν G : Type) where
  | finish (inputMapping : Option (InputMapping ν))
  | error (context : Option (InputMapping ν))
  | conditional (condition : ConditionExpression ν)
  | filter (value : MappingValue ν) (condition : ConditionExpression ν)
  | groupBy (value : MappingValue ν)
  | log (context : Option (InputMapping ν))
  | delay (durationMs : MappingValue ν)
  | switch (config : Option (SwitchExpressions ν))
  | split (config : Option (MappingValue ν × Option (InputMapping ν))) (subgraph : G)
  | whileLoop (condition : ConditionExpression ν) (vars : Option (InputMapping ν)) (subgraph : G)
  | embedWorkflow (inputMapping : Option (InputMapping ν))
  | waitForSignal (timeoutMs : Option (MappingValue ν)) (correlation context : InputMapping ν)
      (onWait : Option G)
  | agent (connectionRef : Option (MappingValue ν)) (inputMapping : Option (InputMapping ν))
  | aiAgent (connectionRef : Option (MappingValue ν)) (config : Option (AiAgentExpressions ν))

/-- A step with its expressions. -/
structure ExprStepOf (ν G : Type) where
  id : StepId
  kind : ExprKindOf ν G

/-- An execution-plan edge with its condition. -/
structure ExprEdge (ν : Type) where
  fromStep : StepId
  toStep : StepId
  condition : Option (ConditionExpression ν)

/-- A graph with its expressions. -/
structure ExprGraph (ν : Type) where
  steps : List (ExprStepOf ν (ExprGraph ν))
  executionPlan : List (ExprEdge ν)

abbrev ExprStep (ν : Type) := ExprStepOf ν (ExprGraph ν)

/-- What the runtime evaluates for a step, apart from the conditions of its edges. -/
def ExprKindOf.leaves {G : Type} : ExprKindOf ν G → List Leaf
  | .finish mapping | .embedWorkflow mapping | .error mapping | .log mapping =>
    (mapping.map InputMapping.leaves).getD []
  | .conditional condition => condition.leaves
  | .filter value condition => value.leaves ++ condition.leaves
  | .groupBy value | .delay value => value.leaves
  | .switch config => (config.map fun c =>
      c.value.leaves ++ (c.outputs ++ c.default.toList).flatMap switchOutputLeaves).getD []
  | .split config _ => (config.map fun c =>
      c.1.leaves ++ (c.2.map InputMapping.leaves).getD []).getD []
  | .whileLoop condition vars _ =>
    condition.leaves ++ (vars.map InputMapping.leaves).getD []
  | .waitForSignal timeoutMs correlation context _ =>
    timeoutMs.toList.flatMap MappingValue.leaves ++ InputMapping.leaves correlation
      ++ InputMapping.leaves context
  | .agent connectionRef mapping =>
    connectionRef.toList.flatMap MappingValue.leaves ++ (mapping.map fun m =>
      InputMapping.leaves m ++ envelopeLeaves (InputMapping.payload m)).getD []
  | .aiAgent connectionRef config =>
    connectionRef.toList.flatMap MappingValue.leaves ++ (config.map fun c =>
      (c.systemPrompt :: c.userPrompt :: (c.model.toList ++ c.temperature.toList
        ++ c.maxTokens.toList ++ c.conversationId.toList)).flatMap MappingValue.leaves).getD []

namespace ExprGraph

/-- `graph.steps.contains_key`. -/
def hasStep (graph : ExprGraph ν) (stepId : StepId) : Bool := graph.steps.any (·.id == stepId)

section Nested

variable (onWait : Bool)

mutual

/-- A graph and the graphs nested in it, with or without those of waiting steps. -/
def nestedGraphs : ExprGraph ν → List (ExprGraph ν)
  | ⟨steps, plan⟩ => ⟨steps, plan⟩ :: stepGraphs steps

def stepGraphs : List (ExprStepOf ν (ExprGraph ν)) → List (ExprGraph ν)
  | [] => []
  | ⟨_, kind⟩ :: rest => kindGraphs kind ++ stepGraphs rest

def kindGraphs : ExprKindOf ν (ExprGraph ν) → List (ExprGraph ν)
  | .split _ subgraph => nestedGraphs subgraph
  | .whileLoop _ _ subgraph => nestedGraphs subgraph
  | .waitForSignal _ _ _ graph? => if onWait then optionGraphs graph? else []
  | _ => []

def optionGraphs : Option (ExprGraph ν) → List (ExprGraph ν)
  | none => []
  | some graph => nestedGraphs graph

end

end Nested

/-- The graph a step runs while it waits. -/
def onWaitGraph? (step : ExprStep ν) : Option (ExprGraph ν) :=
  match step.kind with
  | .waitForSignal _ _ _ graph? => graph?
  | _ => none

end ExprGraph

/-! ### Steps that are read -/

/-- The step a path of segments starts at. -/
def stepOfSegments : List String → Option StepId
  | "steps" :: stepId :: _ => some stepId
  | _ => none

/-- The steps a leaf reads when it is evaluated. What a template reads is up to the template
engine. -/
def Leaf.reads (templateSteps : String → List StepId) : Leaf → List StepId
  | .path p | .envelope p => (stepOfSegments (pathToSegments p)).toList
  | .template text => templateSteps text
  | .output p => (stepOfSegments ((p.toList.splitOn '.').map String.ofList)).toList

end Runtara
