import SignalGraph.Proofs.Engine.Period
import SignalGraph.Proofs.Node.Pulse

/-!
# Pulses in a run

Between two requests, a node that gives pulses shows true exactly while its timer is armed, and the
timer waits for the end of the pulse; so no pulse lasts for ever, and each one that has not been cut
short has lasted exactly its length (`Engine.pulses_exact`).
-/

namespace SignalGraph

namespace Engine

variable {H : Type}

/-- What a node that gives pulses of this length shows, given what has happened to it. -/
structure PulsesExact (e : Engine H) (graph : String) (n : Node) (key : TimerKey) (length : Nat)
    (eps : List Episode) : Prop where
  /-- The output is true exactly while a timer is armed. -/
  outputs_eq : n.ports.outputs = [.bool (!n.timers.isEmpty)]
  /-- A timer that is armed waits for the end of the pulse. -/
  awaits : n.timers ≠ [] → ∃ start, n.Began eps start ∧ e.Awaits graph n key (start + length)
  /-- When a timer fired, the pulse that the node showed until then had lasted its length. -/
  ended : ∀ before ep after timer, eps = before ++ ep :: after → ep.occasion = .fired timer →
    ∃ (m : Node) (start : Nat), m.Lives (ep :: after) n ∧ m.Began before start ∧
      ep.time = start + length

variable [Host H] {e e' : Engine H} {limit i j : Nat} {c : Configuration} {later : List (Request H)}
  {r : Runner} {n : Node}

/-- Between two requests, the output of an enabled pulse, staircase light or edge detector is true
exactly if its timer is armed, and that timer waits for the end of the pulse. Every pulse at whose
end a timer has fired has lasted exactly its length. -/
theorem pulses_exact (h : e.Period limit c later e') (hr : e'.runners[i]? = some r)
    (hn : r.graph.nodes[j]? = some n) (henabled : n.enabled = true)
    (htype : n.ports.type.isMomentary = true) :
    c.Declares r.graph.id n ∧ e'.Clocked (e.record limit (.load c :: later) i j) ∧
      ∃ key length, n.behavior.endKey? = some key ∧ n.behavior.length? = some length ∧
        e'.PulsesExact r.graph.id n key length (e.record limit (.load c :: later) i j) := by
  obtain ⟨hdeclares, n₀, hfresh, hlives⟩ := h.exists_lives hr hn
  have hclocked := h.clocked i j
  have henabled₀ : n₀.enabled = true := hlives.enabled_eq.symm.trans henabled
  rw [hlives.type_eq] at htype
  obtain ⟨key, due?, hpulses, -, hdisplays⟩ :=
    hlives.momentary hfresh henabled₀ htype hclocked.punctual
  have hkey := hpulses.endKey?_eq
  obtain ⟨length, hlength⟩ := Behavior.exists_length_of_endKey? hkey
  obtain ⟨houtputs, hsole⟩ :=
    hdisplays (h.record_ne_nil hr hn henabled (Behavior.inputBridge?_of_endKey? hkey))
  refine ⟨hdeclares, hclocked, key, length, hkey, hlength, ?_, ?_, ?_⟩
  · rw [houtputs]
    cases due? with
    | none =>
      rw [show n.timers = [] from hsole]
      rfl
    | some due =>
      obtain ⟨timer, htimers, -⟩ := hsole
      rw [htimers]
      rfl
  · intro harmed
    cases due? with
    | none => exact (harmed hsole).elim
    | some due =>
      obtain ⟨start, duration, hbegan, hduration, rfl⟩ := hpulses.began due rfl
      cases hlength.symm.trans hduration
      exact ⟨start, hbegan, h.working_end.awaits hr hn hsole⟩
  · intro before ep after timer heps hfired
    rw [heps] at hlives
    obtain ⟨m, start, duration, -, hrest, hbegan, hduration, hend⟩ :=
      hlives.ended hfresh henabled₀ htype (heps ▸ hclocked.punctual) hfired
    -- the length is a parameter, so it was the same then
    rw [← Behavior.length?_parameters, ← hrest.parameters_eq, Behavior.length?_parameters,
      hlength] at hduration
    cases hduration
    exact ⟨m, start, hrest, hbegan, hend⟩

/-- A bridge passes its signal on to a pulse of a second. -/
def blinking : Configuration :=
  { graphs := [{
      id := "g"
      nodes := [{ id := "a", typeName := "dp_in", params := [("dp", .str "x")] },
        { id := "b", typeName := "pulse", params := [("duration_ms", .int 1000)] }]
      links := [⟨⟨"a", "out"⟩, ⟨"b", "in"⟩⟩] }] }

/-- The signal rises, and it rises again before the pulse has ended. -/
def eager : List (Request MemoryHost) :=
  [.change ⟨"x", .bool true⟩, .advance 300, .change ⟨"x", .bool false⟩, .change ⟨"x", .bool true⟩,
    .advance 300]

/-- The second rise does not make the pulse longer. -/
theorem pulses_exact_blinking : ∃ (e' : Engine MemoryHost) (r : Runner) (n : Node),
    (startingAt default).Period 10 blinking eager e' ∧
      e'.PulsesExact r.graph.id n .main 1000
        ((startingAt default).record 10 (.load blinking :: eager) 0 1) ∧
      e'.now = 600 ∧ e'.Awaits r.graph.id n .main 1000 ∧ n.ports.outputs = [.bool true] := by
  have hserved : ((startingAt default).serveAll 10 (.load blinking :: eager)).any (fun e' =>
      (e'.nodeAt? 0 1).any fun n => n.enabled = true ∧ n.ports.type = .pulse ∧
        n.behavior.endKey? = some .main ∧ n.behavior.length? = some 1000 ∧ e'.now = 600 ∧
        (n.timers.map fun timer => timer.ticket.map Ticket.due) = [some 1000] ∧
        n.shown? = some true) = true := by
    decide +kernel
  have hlast : ∀ request ∈ eager, ∀ c, request ≠ .load c := by
    simp [eager]
  obtain ⟨e', r, n, hperiod, hr, hn, henabled, htype, hkey, hlength, hnow, hdue, hshown⟩ :=
    exists_period_of_nodeAt? hlast hserved
  have hmomentary : n.ports.type.isMomentary = true := by
    rw [htype]
    rfl
  -- the key and the length in the theorem are the ones that the run shows
  obtain ⟨-, -, key, length, hkey', hlength', hpulses⟩ :=
    pulses_exact hperiod hr hn henabled hmomentary
  cases hkey.symm.trans hkey'
  cases hlength.symm.trans hlength'
  have harmed : n.timers ≠ [] := by
    intro hnone
    rw [hnone] at hdue
    cases hdue
  obtain ⟨start, -, hawaits⟩ := hpulses.awaits harmed
  obtain ⟨timer, ticket, htimers, -, hticket, hend, -⟩ := id hawaits
  rw [htimers, List.map_singleton, hticket, Option.map_some, hend] at hdue
  rw [Option.some.inj (List.singleton_inj.1 hdue)] at hawaits
  exact ⟨e', r, n, hperiod, hpulses, hnow, hawaits, Node.outputs_of_shown? hshown⟩

end Engine

end SignalGraph
