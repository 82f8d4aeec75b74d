import SignalGraph.Node.Params
import SignalGraph.Node.Reaction

/-!
# Edges

An edge is a change of a level between two evaluations. The level before the first evaluation is
false.
-/

namespace SignalGraph

/-- Which changes of a level count. -/
inductive EdgeKind where
  | rising
  | falling
  | both
  deriving DecidableEq, Repr, Inhabited

namespace EdgeKind

/-- The kind that a word names, in any case. -/
def ofName? (name : String) : Option EdgeKind :=
  match Text.lower name with
  | "rising" | "rise" | "up" => some .rising
  | "falling" | "fall" | "down" => some .falling
  | "both" | "any" | "change" => some .both
  | _ => none

/-- The kind that the parameter `edge` names. -/
def ofParams (p : Params) (default : EdgeKind) : Except ConfigError EdgeKind := do
  match ← p.text? "edge" with
  | none => return default
  | some name =>
    match ofName? name with
    | some kind => return kind
    | none => p.invalid "edge" .notEdge

/-- Whether the change from one level to the next counts. -/
def isEdge (kind : EdgeKind) (before now : Bool) : Bool :=
  match kind with
  | .rising => !before && now
  | .falling => before && !now
  | .both => before != now

end EdgeKind

/-- Whether a level has just become true. -/
def isRise (before now : Bool) : Bool :=
  EdgeKind.rising.isEdge before now

/-- For each of several levels in turn, whether it is an edge. -/
def edges (kind : EdgeKind) : Bool → List Bool → List Bool
  | _, [] => []
  | before, now :: rest => kind.isEdge before now :: edges kind now rest

/-- A node that shows each edge of its input as a momentary true. -/
structure EdgeDetector where
  kind : EdgeKind
  /-- How many milliseconds the output stays true; with zero it ends in the next turn. -/
  pulse : Nat
  /-- The level at the last evaluation. -/
  level : Bool := false
  deriving DecidableEq, Repr, Inhabited

namespace EdgeDetector

/-- The detector that parameters describe, for one kind of edge or for the kind they name. -/
def ofParams (p : Params) (fixed : Option EdgeKind) : Except ConfigError EdgeDetector := do
  let kind ←
    match fixed with
    | some kind => pure kind
    | none => EdgeKind.ofParams p .rising
  return { kind := kind, pulse := ← p.durationOr "pulse_ms" 0 }

/-- An evaluation on the input. -/
def onInputs (e : EdgeDetector) (v : View) : Reaction EdgeDetector :=
  let now := v.level 0
  let next := { e with level := now }
  if e.kind.isEdge e.level now then .out next (.bool true) [.arm .reset e.pulse]
  else .out next (settled (v.output 0))

def react (e : EdgeDetector) (v : View) : Reaction EdgeDetector :=
  match v.trigger with
  | .timer .reset => .out e (.bool false)
  | _ => e.onInputs v

end EdgeDetector

end SignalGraph
