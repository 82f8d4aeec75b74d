import SignalGraph.Host.Memory

/-!
# A recording host

`RecordingHost` passes every call on to a host in memory and keeps a log of the calls and their
answers. It reports changes of its own: a limited number of successful writes come back as changes
of the signal written to, and subscribing to chosen signals reports a value for them. Subscriptions
of other chosen signals fail.
-/

namespace SignalGraph

/-- A call to a host with its answer. -/
inductive HostCall where
  | subscribe (signal : String)
  | unsubscribe (signal : String)
  | read (signal : String) (answer : Option Value)
  | write (signal : String) (value : Value) (ack succeeded : Bool)
  | resolve (scene : String) (answer : Option String)
  deriving Inhabited

/-- A host in memory whose calls are recorded. -/
structure RecordingHost where
  memory : MemoryHost := {}
  /-- The calls so far, the last one first. -/
  recorded : List HostCall := []
  /-- How many more writes come back as changes. -/
  echoes : Nat := 0
  /-- What is reported when a signal is subscribed to. -/
  pushes : Dictionary Value := []
  /-- The signals whose subscriptions fail. -/
  refused : List String := []
  deriving Inhabited

namespace RecordingHost

/-- Adds a call to the log. -/
def record (h : RecordingHost) (call : HostCall) : RecordingHost :=
  { h with recorded := call :: h.recorded }

/-- The calls so far, in order. -/
def calls (h : RecordingHost) : List HostCall :=
  h.recorded.reverse

/-- The same host with an empty log. -/
def clearCalls (h : RecordingHost) : RecordingHost :=
  { h with recorded := [] }

/-- The answer to a refused subscription. -/
def refuse (h : RecordingHost) (signal : String) :
    Reply RecordingHost (Except HostError Unit) :=
  { host := h, answer := .error (.subscribe signal "refused") }

def subscribe (h : RecordingHost) (signal : String) :
    Reply RecordingHost (Except HostError Unit) :=
  let h := h.record (.subscribe signal)
  if h.refused.contains signal then h.refuse signal
  else
    { host := { h with memory := h.memory.subscribe signal }
      answer := .ok ()
      reports := ((h.pushes.find? signal).map fun value => Change.mk signal value).toList }

def unsubscribe (h : RecordingHost) (signal : String) :
    Reply RecordingHost (Except HostError Unit) :=
  let h := h.record (.unsubscribe signal)
  if h.refused.contains signal then h.refuse signal
  else { host := { h with memory := h.memory.unsubscribe signal }, answer := .ok () }

def write (h : RecordingHost) (signal : String) (value : Value) (ack : Bool) :
    Reply RecordingHost (Except HostError Unit) :=
  match h.memory.write signal value ack with
  | .error e => { host := h.record (.write signal value ack false), answer := .error e }
  | .ok memory =>
    let h := { h.record (.write signal value ack true) with memory := memory }
    match h.echoes with
    | 0 => { host := h, answer := .ok () }
    | n + 1 => { host := { h with echoes := n }, answer := .ok (), reports := [⟨signal, value⟩] }

instance : Host RecordingHost where
  subscribe := subscribe
  unsubscribe := unsubscribe
  read h signal :=
    let answer := h.memory.value? signal
    { host := h.record (.read signal answer), answer := answer }
  write := write
  resolve h scene :=
    let answer := h.memory.resolve? scene
    { host := h.record (.resolve scene answer), answer := answer }

end RecordingHost

end SignalGraph
