/-! # The log -/

namespace FlowPipeline

inductive Level where
  | debug
  | info
  | warning
  | error
deriving DecidableEq, Repr

def Level.name : Level → String
  | .debug => "DEBUG"
  | .info => "INFO"
  | .warning => "WARNING"
  | .error => "ERROR"

/-- The messages in the order in which they were logged. -/
abbrev Log := List (Level × String)

end FlowPipeline
