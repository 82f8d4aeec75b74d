/-!
# Timer keys and fires

A node tells its timers apart by keys. A fire is the address that a timer was armed with: the load
it belongs to, the graph, the node, the key, and a token that no other arming has.
-/

namespace SignalGraph

/-- Which of a node's timers is meant. -/
inductive TimerKey where
  /-- The delay or pulse of the node. -/
  | main
  /-- The end of a momentary output. -/
  | reset
  /-- The next evaluation at a full minute. -/
  | tick
  /-- A write put off. -/
  | throttle
  /-- The reset write to a signal. -/
  | pulse (signal : String)
  deriving DecidableEq, Repr, Inhabited

/-- What a timer reports when it fires. -/
structure Fire where
  generation : Nat
  graph : String
  node : String
  key : TimerKey
  token : Nat
  deriving DecidableEq, Repr, Inhabited

end SignalGraph
