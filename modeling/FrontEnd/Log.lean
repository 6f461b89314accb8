/-!
# Log entries

What the stages tell about their work as they go, each line with its weight.
-/

namespace FrontEnd.Log

/-- The weight of a log line. -/
inductive Level where
  | error
  | info
  | debug
  | trace
deriving DecidableEq, Repr

/-- The name of a weight. -/
def Level.name : Level → String
  | error => "ERROR"
  | info => "INFO"
  | debug => "DEBUG"
  | trace => "TRACE"

/-- One line of the log. -/
structure Entry where
  level : Level
  message : String
deriving DecidableEq, Repr

end FrontEnd.Log
