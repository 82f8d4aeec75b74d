import SignalGraph.Proofs.Engine.Account
import SignalGraph.Proofs.Node.Pulse

/-!
# Edges that show

An edge detector shows an edge by an output that rises. An edge that comes while the end of a pulse
is still awaited makes the pulse longer instead, so the output does not rise
(`Node.Becomes.rises_eq`): the rises of the output are the edges that come while no timer is armed
(`Engine.edges_shown`).
-/

namespace SignalGraph

/-- The types of edge detectors. -/
def NodeType.isEdgeDetector : NodeType → Bool
  | .edge | .edgeRising | .edgeFalling | .edgeBoth => true
  | _ => false

theorem NodeType.isMomentary_of_isEdgeDetector {ty : NodeType} (h : ty.isEdgeDetector = true) :
    ty.isMomentary = true := by
  cases ty with
  | edge | edgeRising | edgeFalling | edgeBoth => rfl
  | _ => cases h

theorem NodeType.inputs_pos_of_isEdgeDetector {ty : NodeType} (h : ty.isEdgeDetector = true) :
    0 < ty.inputs.length := by
  cases ty with
  | edge | edgeRising | edgeFalling | edgeBoth => decide
  | _ => cases h

theorem Behavior.exists_edge {b : Behavior} {d : EdgeDetector}
    (h : b.parameters = parameters (.edge d)) : ∃ d', b = .edge d' ∧ d'.kind = d.kind := by
  cases b with
  | edge d' =>
    have hparameters : edge { d' with level := false } = edge { d with level := false } := h
    exact ⟨d', rfl, (congrArg EdgeDetector.kind (edge.inj hparameters) :)⟩
  | _ => cases h

theorem ArmedTimers.Sole.isEmpty_eq {timers : ArmedTimers} {key : TimerKey} {due? : Option Nat}
    (h : timers.Sole key due?) : timers.isEmpty = due?.isNone := by
  cases due? with
  | none =>
    rw [show timers = [] from h]
    rfl
  | some due =>
    obtain ⟨timer, rfl, -⟩ := h
    rfl

/-- The kind of edges that an edge detector shows. -/
def Node.edgeKind? (n : Node) : Option EdgeKind :=
  match n.behavior with
  | .edge d => some d.kind
  | _ => none

/-- The count of an impulse counter. -/
def Node.impulses? (n : Node) : Option Nat :=
  match n.behavior with
  | .impulseCounter c => some c.count
  | _ => none

/-! ### Edges and rises -/

namespace Occurrence

variable {H : Type} [Host H] (ctx : LoadContext) (o : Occurrence H)

/-- The first output port shows true after this, and it did not before. -/
def rises : Bool :=
  o.before?.any fun n => (o.after? ctx).any fun n' =>
    isRise (n.ports.outputAt 0).truth (n'.ports.outputAt 0).truth

/-- The level of the first input port changes, as this kind of edge says. -/
def bringsEdge (kind : EdgeKind) : Bool :=
  o.before?.any fun n => (o.after? ctx).any fun n' => kind.isEdge (n.level 0) (n'.level 0)

/-- No timer of the node is armed before this. -/
def isIdle : Bool :=
  o.before?.any fun n => n.timers.isEmpty

end Occurrence

namespace Node

variable {H : Type} [Host H] {ctx : LoadContext} {n₀ n n' : Node} {os : List (Occurrence H)}
  {ep : Episode} {d : EdgeDetector} {due? : Option Nat}

theorem Fresh.exists_edge (h : n.Fresh) (htype : n.ports.type.isEdgeDetector = true) :
    ∃ d, n.behavior = .edge d := by
  obtain ⟨p, hp⟩ := h.exists_params
  have hbuilds := Behavior.builds_of_ofParams hp
  generalize n.ports.type = ty at htype hbuilds
  generalize n.behavior = b at hbuilds ⊢
  cases hbuilds with
  | edge | edgeRising | edgeFalling | edgeBoth => exact ⟨_, rfl⟩
  | _ => cases htype

/-- The output of an edge detector rises at an edge if no timer is armed. -/
theorem Meets.isRise_eq (h : n.Meets .reset due? ep n') (hd : n.behavior = .edge d)
    (hlevel : d.level = n.level 0) (hstands : n.Stands .reset due?.isSome due?) :
    isRise (n.ports.outputAt 0).truth (n'.ports.outputAt 0).truth =
      (d.kind.isEdge (n.level 0) (n'.level 0) && n.timers.isEmpty) := by
  rw [hstands.truth_eq, hstands.sole.isEmpty_eq]
  cases h with
  | inputs _ hbehavior houtputs htimers hevaluates =>
    obtain ⟨-, hdisplays⟩ :=
      hevaluates.edge (hbehavior.trans hd) (hstands.congr houtputs htimers)
    rw [hdisplays.stands.truth_eq, EdgeDetector.next?, hlevel]
    cases d.kind.isEdge (n.level 0) (n'.level 0) <;> cases due? <;> rfl
  | fired hdue hstored hbehavior hports htimers hevaluates =>
    -- a fire ends the pulse, and the input stays as it was
    have hsame : n'.level 0 = n.level 0 := by
      rw [hevaluates.level_eq, level, hports, level]
    rw [hsame, EdgeKind.not_isEdge_self, hdue]
    cases hrise : (n'.ports.outputAt 0).truth <;> rfl

/-- What an edge detector shows of each edge. -/
theorem Becomes.rises_eq (h : n₀.Becomes ctx os n) (hfresh : n₀.Fresh)
    (henabled : n₀.enabled = true) (htype : n₀.ports.type.isEdgeDetector = true)
    (hd : n.behavior = .edge d) {start : Moment}
    (hpunctual : Punctual start (os.map (Occurrence.episode ctx))) :
    ∀ o ∈ os, o.rises ctx = (o.bringsEdge ctx d.kind && o.isIdle) := by
  intro o ho
  obtain ⟨before, after, rfl⟩ := List.append_of_mem ho
  obtain ⟨n₁, n₂, hbecomes, hbefore, hafter, hundergoes, hrest⟩ := h.split
  have hlives := hbecomes.lives
  have hsub : (before.map (Occurrence.episode ctx)).Sublist
      ((before ++ o :: after).map (Occurrence.episode ctx)) :=
    (List.sublist_append_left _ _).map _
  obtain ⟨key, due?, hpulses, hstands, -⟩ := hlives.momentary hfresh henabled
    (NodeType.isMomentary_of_isEdgeDetector htype) (hpunctual.sublist hsub)
  -- the kind is a parameter, so it has always been the same
  have hparameters : n₁.behavior.parameters = Behavior.parameters (.edge d) := by
    rw [hlives.parameters_eq, ← h.lives.parameters_eq, hd]
  obtain ⟨d₁, hd₁, hkind⟩ := Behavior.exists_edge hparameters
  have hkey := hpulses.endKey?_eq
  rw [hd₁] at hkey
  cases hkey
  have hlevel : d₁.level = n₁.level 0 := by
    have hsaw := hpulses.saw
    rw [Saw, hd₁] at hsaw
    rw [hsaw]
    refine (hlives.levels_eq hfresh ?_).symm
    rw [hfresh.fits.inputs]
    exact NodeType.inputs_pos_of_isEdgeDetector htype
  have hmeets := hundergoes.meets (hlives.enabled_eq.trans henabled)
    (Behavior.inputBridge?_of_endKey? hpulses.endKey?_eq) hstands.sole
    (hpunctual.due _ (List.mem_map_of_mem ho))
  rw [Occurrence.rises, Occurrence.bringsEdge, Occurrence.isIdle, hbefore, hafter]
  simp only [Option.any_some]
  rw [← hkind]
  exact hmeets.isRise_eq hd₁ hlevel hstands

end Node

/-! ### Periods -/

namespace Engine

variable {H : Type} [Host H]

/-- How an edge detector of this kind shows what has happened to it. -/
structure EdgesShown (ctx : LoadContext) (kind : EdgeKind) (os : List (Occurrence H)) : Prop where
  /-- The output rises at an edge that comes while no timer is armed, and only then. -/
  rises_eq : ∀ o ∈ os, o.rises ctx = (o.bringsEdge ctx kind && o.isIdle)
  /-- The other edges do not show. -/
  countP_eq : os.countP (·.rises ctx) + os.countP (fun o => o.bringsEdge ctx kind && !o.isIdle) =
    os.countP (·.bringsEdge ctx kind)

variable {e e' : Engine H} {limit i j : Nat} {c : Configuration} {later : List (Request H)}
  {r : Runner} {n : Node}

/-- The output of an enabled edge detector rises at every edge that comes while no end of a pulse is
awaited, and at no other time. -/
theorem edges_shown (h : e.Period limit c later e') (hr : e'.runners[i]? = some r)
    (hn : r.graph.nodes[j]? = some n) (henabled : n.enabled = true)
    (htype : n.ports.type.isEdgeDetector = true) :
    c.Declares r.graph.id n ∧ ∃ kind, n.edgeKind? = some kind ∧
      EdgesShown e'.context kind (e.account limit (.load c :: later) i j) := by
  obtain ⟨hdeclares, -⟩ := h.exists_lives hr hn
  obtain ⟨n₀, hfresh, hadvances, -⟩ := h.exists_reached hr hn
  have hbecomes := hadvances.becomes
  have hlives := hbecomes.lives
  rw [hlives.type_eq] at htype
  obtain ⟨d₀, hd₀⟩ := hfresh.exists_edge htype
  obtain ⟨d, hd, -⟩ := Behavior.exists_edge (hlives.parameters_eq.trans (by rw [hd₀]))
  have hpunctual := (h.clocked i j).punctual
  rw [← h.map_account i j] at hpunctual
  have hrises := hbecomes.rises_eq hfresh (hlives.enabled_eq.symm.trans henabled) htype hd hpunctual
  refine ⟨hdeclares, d.kind, by rw [Node.edgeKind?, hd], hrises, ?_⟩
  -- every edge either finds the node idle or does not
  have hsplit := List.countP_eq_countP_filter_add (e.account limit (.load c :: later) i j)
    (·.bringsEdge e'.context d.kind) Occurrence.isIdle
  rw [List.countP_filter, List.countP_filter] at hsplit
  rw [List.countP_congr fun o ho => by rw [hrises o ho]]
  exact hsplit.symm

/-- A bridge passes its signal on to an edge detector, whose rises are counted. -/
def edgeCounting : Configuration :=
  { graphs := [{
      id := "g"
      nodes := [{ id := "a", typeName := "dp_in", params := [("dp", .str "x")] },
        { id := "b", typeName := "edge" }, { id := "c", typeName := "impulse_counter" }]
      links := [⟨⟨"a", "out"⟩, ⟨"b", "in"⟩⟩, ⟨⟨"b", "out"⟩, ⟨"c", "in"⟩⟩] }] }

/-- The signal rises twice before time passes. -/
def twitching : List (Request MemoryHost) :=
  [.change ⟨"x", .bool true⟩, .change ⟨"x", .bool false⟩, .change ⟨"x", .bool true⟩]

/-- The edge detector sees two edges, and one of them shows. -/
theorem edges_shown_twitching : ∃ (e' : Engine MemoryHost) (r : Runner) (n : Node),
    (startingAt default).Period 10 edgeCounting twitching e' ∧ e'.runners[0]? = some r ∧
      r.graph.nodes[1]? = some n ∧ n.enabled = true ∧ n.edgeKind? = some .rising ∧
      EdgesShown e'.context .rising
        ((startingAt default).account 10 (.load edgeCounting :: twitching) 0 1) := by
  have hserved : ((startingAt default).serveAll 10 (.load edgeCounting :: twitching)).any (fun e' =>
      (e'.nodeAt? 0 1).any fun n => n.enabled = true ∧ n.ports.type.isEdgeDetector = true ∧
        n.edgeKind? = some .rising) = true := by
    decide +kernel
  have hlast : ∀ request ∈ twitching, ∀ c, request ≠ .load c := by
    simp [twitching]
  obtain ⟨e', r, n, hperiod, hr, hn, henabled, htype, hkind⟩ :=
    exists_period_of_nodeAt? hlast hserved
  obtain ⟨-, kind, hkind', hshown⟩ := edges_shown hperiod hr hn henabled htype
  cases hkind.symm.trans hkind'
  exact ⟨e', r, n, hperiod, hr, hn, henabled, hkind, hshown⟩

/-- An edge that comes while the end of a pulse is awaited does not show, so a counter of the rises
of the output misses it. -/
theorem edge_missed_twitching : ∃ (e' : Engine MemoryHost) (r : Runner) (n : Node),
    (startingAt default).Period 10 edgeCounting twitching e' ∧ e'.runners[0]? = some r ∧
      r.graph.nodes[1]? = some n ∧ n.enabled = true ∧ n.edgeKind? = some .rising ∧
      ((startingAt default).account 10 (.load edgeCounting :: twitching) 0 1).countP
        (·.bringsEdge e'.context .rising) = 2 ∧
      ((startingAt default).account 10 (.load edgeCounting :: twitching) 0 1).countP
        (·.rises e'.context) = 1 ∧
      (e'.nodeAt? 0 2).bind Node.impulses? = some 1 := by
  have hserved : ((startingAt default).serveAll 10 (.load edgeCounting :: twitching)).any (fun e' =>
      (e'.nodeAt? 0 1).any fun n => n.enabled = true ∧ n.edgeKind? = some .rising ∧
        ((startingAt default).account 10 (.load edgeCounting :: twitching) 0 1).countP
          (·.bringsEdge e'.context .rising) = 2 ∧
        ((startingAt default).account 10 (.load edgeCounting :: twitching) 0 1).countP
          (·.rises e'.context) = 1 ∧
        (e'.nodeAt? 0 2).bind Node.impulses? = some 1) = true := by
    decide +kernel
  have hlast : ∀ request ∈ twitching, ∀ c, request ≠ .load c := by
    simp [twitching]
  obtain ⟨e', r, n, hperiod, hr, hn, hmissed⟩ := exists_period_of_nodeAt? hlast hserved
  exact ⟨e', r, n, hperiod, hr, hn, hmissed⟩

end Engine

end SignalGraph
