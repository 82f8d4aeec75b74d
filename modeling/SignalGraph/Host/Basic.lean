import SignalGraph.Value.Basic

/-!
# Hosts

A host is the platform around the engine: it owns the outside signals. The engine asks it to start
and stop delivering changes of a signal, to read and write signals, and to look up the signal of a
scene. From inside any of these calls the host may report changes of signals; the reports of a call
come with its answer.
-/

namespace SignalGraph

/-- A change of an outside signal. -/
structure Change where
  signal : String
  value : Value
  deriving Inhabited

/-- Why a host refuses a call. -/
inductive HostError where
  | write (signal reason : String)
  | subscribe (signal reason : String)
  deriving DecidableEq, Repr

/-- The text of a host error. -/
def HostError.message : HostError → String
  | .write signal reason => "write to `" ++ signal ++ "` failed: " ++ reason
  | .subscribe signal reason => "subscription for `" ++ signal ++ "` failed: " ++ reason

/-- What a host answers to a call. -/
structure Reply (H α : Type) where
  /-- The host after the call. -/
  host : H
  answer : α
  /-- The changes it reported during the call. -/
  reports : List Change := []

/-- A host with state of type `H`. -/
class Host (H : Type) where
  /-- Starts delivering changes of a signal. -/
  subscribe : H → String → Reply H (Except HostError Unit)
  /-- Stops delivering changes of a signal. -/
  unsubscribe : H → String → Reply H (Except HostError Unit)
  /-- The current value of a signal, if it has one. -/
  read : H → String → Reply H (Option Value)
  /-- Writes a value to a signal, with or without the acknowledge flag. -/
  write : H → String → Value → Bool → Reply H (Except HostError Unit)
  /-- The signal of a scene, if it is registered. -/
  resolve : H → String → Reply H (Option String)

end SignalGraph
