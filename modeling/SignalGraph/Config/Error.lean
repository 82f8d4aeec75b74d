/-!
# What can be wrong with a configuration

A configuration may be undecodable as a whole (`DecodeError`). In a decoded one, each graph, node
or link that cannot be used is left out and reported as a `ConfigError`, with its own text.
-/

namespace SignalGraph

/-- The format of a configuration that could not be decoded. -/
inductive DecodeError where
  | json
  | messagePack
  deriving DecidableEq, Repr

/-- Why the value of a parameter is refused. -/
inductive ParamFault where
  | notFinite
  | notNumber
  | negative
  | notBoolean
  | notText
  | missing
  | notDecimals
  | notEdge
  | notPriority
  | notComparison
  | belowMin
  | unknownPreset (name : String)
  | notCast
  | missingTarget
  | unknownDay (name : String)
  | notTime
  | notHolidayMode
  deriving DecidableEq, Repr

/-- The text of a fault, which follows the name of the parameter. -/
def ParamFault.message : ParamFault → String
  | .notFinite => "must be a finite number"
  | .notNumber => "must be a number"
  | .negative => "must not be negative"
  | .notBoolean => "must be a boolean"
  | .notText => "must be a string"
  | .missing => "is required"
  | .notDecimals => "must be an integer between 0 and 10"
  | .notEdge => "must be rising, falling or both"
  | .notPriority => "must be `r` or `s`"
  | .notComparison => "is not a comparison"
  | .belowMin => "must not be below min"
  | .unknownPreset name => "unknown preset `" ++ name ++ "`"
  | .notCast => "must be auto, bool, number or string"
  | .missingTarget => "is required unless `dp` is set"
  | .unknownDay name => "unknown day `" ++ name ++ "`"
  | .notTime => "must be HH:MM"
  | .notHolidayMode => "must be ignore, off or sunday"

/-- Why a graph, node or link is left out. -/
inductive ConfigError where
  | unknownType (node typeName : String)
  | duplicateNode (node : String)
  | duplicateGraph (graph : String)
  | invalidParam (node param : String) (fault : ParamFault)
  | missingNode (node : String)
  | unknownPort (node port : String)
  deriving DecidableEq, Repr

/-- The text of an error. -/
def ConfigError.message : ConfigError → String
  | .unknownType node typeName => "node `" ++ node ++ "` has unknown type `" ++ typeName ++ "`"
  | .duplicateNode node => "node id `" ++ node ++ "` is declared more than once"
  | .duplicateGraph graph => "graph id `" ++ graph ++ "` is declared more than once"
  | .invalidParam node param fault =>
    "node `" ++ node ++ "`: parameter `" ++ param ++ "` " ++ fault.message
  | .missingNode node => "link references missing node `" ++ node ++ "`"
  | .unknownPort node port =>
    "link references undeclared port `" ++ port ++ "` on node `" ++ node ++ "`"

end SignalGraph
