import SignalGraph.Text.Blank

/-!
# Node types

Each type has one name, some further names that stand for it, and the names of its input and output
ports. Ports are numbered in the order listed here.
-/

namespace SignalGraph

/-- The types of nodes. -/
inductive NodeType where
  | const | not | and | or | xor
  | compare
  | add | sub | mul | div | min | max
  | clamp | scale
  | edge | edgeRising | edgeFalling | edgeBoth
  | toggle | rs
  | delayOn | delayOff | pulse | staircase | pulseExtend
  | schedule
  | impulseCounter | counter | runtimeHours
  | dpIn | dpOut | scene
  deriving DecidableEq, Repr, Inhabited

namespace NodeType

/-- Every type. -/
def all : List NodeType :=
  [.const, .not, .and, .or, .xor, .compare, .add, .sub, .mul, .div, .min, .max, .clamp, .scale,
    .edge, .edgeRising, .edgeFalling, .edgeBoth, .toggle, .rs, .delayOn, .delayOff, .pulse,
    .staircase, .pulseExtend, .schedule, .impulseCounter, .counter, .runtimeHours, .dpIn, .dpOut,
    .scene]

theorem mem_all (ty : NodeType) : ty ∈ all := by
  cases ty <;> decide

/-- The name of a type. -/
def name : NodeType → String
  | .const => "const"
  | .not => "not"
  | .and => "and"
  | .or => "or"
  | .xor => "xor"
  | .compare => "compare"
  | .add => "add"
  | .sub => "sub"
  | .mul => "mul"
  | .div => "div"
  | .min => "min"
  | .max => "max"
  | .clamp => "clamp"
  | .scale => "scale"
  | .edge => "edge"
  | .edgeRising => "edge_rising"
  | .edgeFalling => "edge_falling"
  | .edgeBoth => "edge_both"
  | .toggle => "toggle"
  | .rs => "rs"
  | .delayOn => "delay_on"
  | .delayOff => "delay_off"
  | .pulse => "pulse"
  | .staircase => "staircase"
  | .pulseExtend => "pulse_extend"
  | .schedule => "schedule"
  | .impulseCounter => "impulse_counter"
  | .counter => "counter"
  | .runtimeHours => "runtime_hours"
  | .dpIn => "dp_in"
  | .dpOut => "dp_out"
  | .scene => "scene"

/-- Further names; none of them is the name of a type. -/
def aliases : List (String × NodeType) :=
  [("after_run", .delayOff), ("ton", .delayOn), ("timer_on", .delayOn), ("toff", .delayOff),
    ("timer_off", .delayOff), ("flipflop", .toggle), ("sr", .rs), ("datapoint_in", .dpIn),
    ("datapoint_out", .dpOut), ("scene_trigger", .scene), ("stairs", .staircase),
    ("counter_impulse", .impulseCounter), ("hours", .runtimeHours),
    ("operating_hours", .runtimeHours), ("comparator", .compare), ("limit", .clamp)]

/-- The type that a text names, blanks around it and case aside. -/
def ofName? (text : String) : Option NodeType :=
  let word := Text.lower (Text.trim text)
  match all.find? (fun ty => ty.name == word) with
  | some ty => some ty
  | none => (aliases.find? (fun alternative => alternative.1 == word)).map Prod.snd

/-- The names of the input ports. -/
def inputs : NodeType → List String
  | .const | .dpIn => []
  | .and | .or | .xor | .compare | .add | .sub | .mul | .div | .min | .max => ["a", "b"]
  | .toggle | .impulseCounter => ["in", "reset"]
  | .staircase => ["in", "off"]
  | .rs => ["s", "r"]
  | .schedule => ["holiday"]
  | .counter => ["up", "down", "reset"]
  | .runtimeHours => ["run", "reset"]
  | .not | .clamp | .scale | .edge | .edgeRising | .edgeFalling | .edgeBoth | .delayOn | .delayOff
  | .pulse | .pulseExtend | .dpOut | .scene => ["in"]

/-- The names of the output ports. -/
def outputs : NodeType → List String
  | .dpOut | .scene => []
  | .rs => ["q"]
  | .impulseCounter => ["count", "value"]
  | .counter => ["count"]
  | .runtimeHours => ["hours"]
  | _ => ["out"]

/-- The number of an input port. -/
def inputIndex? (ty : NodeType) (port : String) : Option Nat :=
  ty.inputs.findIdx? (· == port)

/-- The number of an output port. -/
def outputIndex? (ty : NodeType) (port : String) : Option Nat :=
  ty.outputs.findIdx? (· == port)

end NodeType

end SignalGraph
