import FlowPipeline.Flow

/-! # Issues of flows

Issues do not keep a manifest from being read; they keep a build from succeeding.
-/

namespace FlowPipeline

inductive Issue where
  | type (type : String)
  | noCadence
  | cadenceOfAction
  | noReturns
  | undefinedModel (name : String)
deriving DecidableEq, Repr

namespace Issue

/-- The issue of the flow of the given name, in words. -/
def message (flow : String) : Issue → String
  | .type t =>
    "The sync " ++ flow ++ " has an invalid type \"" ++ t ++
      "\". The type must be either sync or action."
  | .noCadence => "The sync " ++ flow ++ " is missing the \"runs\" property."
  | .cadenceOfAction => "The action " ++ flow ++ " must not declare a \"runs\" property."
  | .noReturns =>
    "The " ++ flow ++ " integration is missing a returns property for what models the sync " ++
      "returns. Make sure you have \"returns\" instead of \"return\""
  | .undefinedModel name =>
    "The model \"" ++ name ++ "\" returned by " ++ flow ++ " is not defined in models."

end Issue

/-- Everything that is wrong with a flow. -/
def Flow.issues (f : Flow) : List Issue :=
  let kind (k : FlowKind) : Bool := f.kind? == some k
  (if f.kind?.isNone then [.type f.type] else []) ++
    (if kind .sync && f.cadence.isNone then [.noCadence] else []) ++
    (if kind .action && f.cadence.isSome then [.cadenceOfAction] else []) ++
    (if kind .sync && f.returns.isEmpty then [.noReturns] else []) ++
    f.unresolved.map .undefinedModel

/-- The issues of all flows, each with the name of its flow. -/
def Integration.issues (is : List Integration) : List (String × Issue) :=
  (is.flatMap Integration.flows).flatMap fun f => f.issues.map fun i => (f.name, i)

/-- The log of the issues. -/
def Issue.log (issues : List (String × Issue)) : Log :=
  issues.map fun (flow, i) => (.error, i.message flow)

end FlowPipeline
