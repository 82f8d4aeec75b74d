import SignalGraph.Dictionary
import SignalGraph.Host.Basic

/-!
# A host in memory

`MemoryHost` keeps a value for each signal and remembers every write and subscription. Writes to
chosen signals fail. It never reports a change by itself.
-/

namespace SignalGraph

/-- A write that was made. -/
structure WriteRecord where
  signal : String
  value : Value
  ack : Bool
  deriving Inhabited

/-- A host that keeps everything in memory. -/
structure MemoryHost where
  values : Dictionary Value := []
  /-- The writes that succeeded, the last one first. -/
  written : List WriteRecord := []
  /-- The signals subscribed to, as a dictionary without contents. -/
  subscribed : Dictionary Unit := []
  /-- The signal of every subscription that was ever made, the last one first. -/
  requested : List String := []
  /-- The signals of registered scenes. -/
  devices : Dictionary String := []
  /-- The signals to which writes fail. -/
  readOnly : List String := []
  deriving Inhabited

namespace MemoryHost

/-- The value of a signal. -/
def value? (h : MemoryHost) (signal : String) : Option Value :=
  h.values.find? signal

/-- Sets the value of a signal without a write. -/
def setValue (h : MemoryHost) (signal : String) (value : Value) : MemoryHost :=
  { h with values := h.values.insert signal value }

/-- Registers the signal of a scene. -/
def registerDevice (h : MemoryHost) (scene signal : String) : MemoryHost :=
  { h with devices := h.devices.insert scene signal }

/-- Makes later writes to a signal fail. -/
def failWritesTo (h : MemoryHost) (signal : String) : MemoryHost :=
  { h with readOnly := signal :: h.readOnly }

/-- The signals subscribed to, in order. -/
def subscriptions (h : MemoryHost) : List String :=
  h.subscribed.keys

/-- The signal of every subscription that was ever made, in order. -/
def subscribeCalls (h : MemoryHost) : List String :=
  h.requested.reverse

/-- The writes that succeeded, in order. -/
def writes (h : MemoryHost) : List WriteRecord :=
  h.written.reverse

/-- The values written to a signal, in order. -/
def writesTo (h : MemoryHost) (signal : String) : List Value :=
  (h.writes.filter fun w => w.signal == signal).map WriteRecord.value

/-- Forgets the writes made so far; the values of the signals stay. -/
def clearWrites (h : MemoryHost) : MemoryHost :=
  { h with written := [] }

def subscribe (h : MemoryHost) (signal : String) : MemoryHost :=
  { h with
    subscribed := h.subscribed.insert signal ()
    requested := signal :: h.requested }

def unsubscribe (h : MemoryHost) (signal : String) : MemoryHost :=
  { h with subscribed := h.subscribed.erase signal }

/-- Writes a value, unless the signal is read-only. -/
def write (h : MemoryHost) (signal : String) (value : Value) (ack : Bool) :
    Except HostError MemoryHost :=
  if h.readOnly.contains signal then .error (.write signal "signal is read-only")
  else
    .ok { h.setValue signal value with written := ⟨signal, value, ack⟩ :: h.written }

/-- The signal of a scene. -/
def resolve? (h : MemoryHost) (scene : String) : Option String :=
  h.devices.find? scene

instance : Host MemoryHost where
  subscribe h signal := { host := h.subscribe signal, answer := .ok () }
  unsubscribe h signal := { host := h.unsubscribe signal, answer := .ok () }
  read h signal := { host := h, answer := h.value? signal }
  write h signal value ack :=
    match h.write signal value ack with
    | .ok h' => { host := h', answer := .ok () }
    | .error e => { host := h, answer := .error e }
  resolve h scene := { host := h, answer := h.resolve? scene }

end MemoryHost

end SignalGraph
