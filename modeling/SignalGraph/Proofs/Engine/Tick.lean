import SignalGraph.Proofs.Calendar.Minute
import SignalGraph.Proofs.Engine.Period
import SignalGraph.Proofs.Node.Tick

/-!
# Minute ticks in a run

Between two requests, the tick of a weekly schedule and of a running operating-hours meter waits for
the next full minute of local time, as the node saw it when it was evaluated last, and a grace after
it. So such a node has been evaluated at most a minute and the grace ago
(`Engine.ticks_recurrent`).
-/

namespace SignalGraph

namespace Engine

variable {H : Type}

/-- The tick is armed since the last episode of the node. -/
structure Ticking (e : Engine H) (graph : String) (n : Node) (last : Episode) : Prop where
  awaits : e.Awaits graph n .tick
    (last.time + e.settings.minuteGrace + last.reading.localNow.untilNextMinute)
  delay_pos : 1 ≤ last.reading.localNow.untilNextMinute
  delay_le : last.reading.localNow.untilNextMinute ≤ 60000
  /-- The delay ends in the millisecond in which the next full minute begins. -/
  minute : last.reading.localNow.time.isLeap = false → ∃ minute,
    last.reading.localNow.NextMinute minute ∧
      minute.Begins (last.reading.localNow.addMillis last.reading.localNow.untilNextMinute)
  /-- The node has been evaluated within the last minute and the grace. -/
  recent : e.now - last.time ≤ 60000 + e.settings.minuteGrace
  recent_absolute : e.world.clock.absoluteNow.millisSince last.reading.absoluteNow ≤
    60000 + e.settings.minuteGrace

variable {e e' : Engine H} {n : Node} {graph : String} {eps : List Episode} {last : Episode}

theorem Ticking.of_awaits (hclocked : e.Clocked eps) (hlast : last ∈ eps)
    (hgraced : last.reading.Graced e.settings.minuteGrace)
    (hawaits : e.Awaits graph n .tick (last.time + last.reading.untilTick)) :
    e.Ticking graph n last := by
  obtain ⟨hpos, hle⟩ := last.reading.localNow.untilNextMinute_bounds
  have hdue : last.time + last.reading.untilTick =
      last.time + e.settings.minuteGrace + last.reading.localNow.untilNextMinute := by
    rw [show last.reading.untilTick = _ from hgraced]
    omega
  rw [hdue] at hawaits
  -- the tick has not come yet, and it comes within a minute and the grace
  have hrecent : e.now - last.time ≤ 60000 + e.settings.minuteGrace := by
    obtain ⟨timer, ticket, -, -, -, -, hnow, -⟩ := hawaits
    omega
  refine ⟨hawaits, hpos, hle, fun hleap => ?_, hrecent, ?_⟩
  · exact ⟨_, Moment.nextMinute_spec hleap, Moment.addMillis_untilNextMinute hleap⟩
  · rw [hclocked.absoluteNow_eq, hclocked.punctual.moment_eq last hlast]
    exact Nat.le_trans (Moment.millisSince_addMillis_le (hclocked.time_le last hlast)) hrecent

variable [Host H] {limit i j : Nat} {c : Configuration} {later : List (Request H)} {r : Runner}

/-- Between two requests, the tick of an enabled weekly schedule is armed since its last episode, in
which it was evaluated, and the schedule shows whether it was on then, by local time and with the
holiday input as it still is. The same holds of the tick of an enabled operating-hours meter while
its input `run` is true; otherwise no timer of the meter is armed. -/
theorem ticks_recurrent (h : e.Period limit c later e') (hr : e'.runners[i]? = some r)
    (hn : r.graph.nodes[j]? = some n) (henabled : n.enabled = true)
    (htype : n.ports.type.isTicking = true) :
    c.Declares r.graph.id n ∧ e'.Clocked (e.record limit (.load c :: later) i j) ∧
      ∃ last, (e.record limit (.load c :: later) i j).getLast? = some last ∧
        (n.ports.type = .schedule → e'.Ticking r.graph.id n last ∧ ∃ s, n.behavior = .schedule s ∧
          n.ports.outputs = [.bool (s.isActive last.reading.localNow (n.level 0))]) ∧
        (n.ports.type = .runtimeHours → (n.level 0 = true → e'.Ticking r.graph.id n last) ∧
          (n.level 0 = false → n.timers = [])) := by
  obtain ⟨hdeclares, n₀, hfresh, hlives⟩ := h.exists_lives hr hn
  have hclocked := h.clocked i j
  obtain ⟨hticks, -, hticking⟩ := hlives.ticking hfresh (hlives.enabled_eq.symm.trans henabled)
    (hlives.type_eq ▸ htype) hclocked.punctual
  -- there is a last evaluation, for the load has primed the node
  have hrecord := h.record_ne_nil hr hn henabled hticks.inputBridge?_eq
  obtain ⟨last, hlast⟩ : ∃ last, (e.record limit (.load c :: later) i j).getLast? = some last :=
    ⟨_, List.getLast?_eq_some_getLast hrecord⟩
  obtain ⟨hsole, houtputs⟩ := hticking last hlast
  have harmed (hneeds : n.needsTick = true) : e'.Ticking r.graph.id n last := by
    have hmem := List.mem_of_getLast? hlast
    rw [if_pos hneeds] at hsole
    exact .of_awaits hclocked hmem (h.graced i j last hmem) (h.working_end.awaits hr hn hsole)
  refine ⟨hdeclares, hclocked, last, hlast, fun hschedule => ?_, fun hmeter => ⟨?_, ?_⟩⟩
  · obtain ⟨s, hs⟩ := hticks.exists_schedule hschedule
    refine ⟨harmed ?_, s, hs, houtputs s hs⟩
    rw [Node.needsTick, hs]
  · intro hrun
    obtain ⟨b, hb⟩ := hticks.exists_hourMeter hmeter
    refine harmed ?_
    rw [Node.needsTick, hb]
    exact hrun
  · intro hstopped
    obtain ⟨b, hb⟩ := hticks.exists_hourMeter hmeter
    have hneeds : n.needsTick = false := by
      rw [Node.needsTick, hb]
      exact hstopped
    rw [hneeds] at hsole
    exact hsole

/-- A weekly schedule that switches on a minute after midnight. -/
def waking : Configuration :=
  { graphs := [{
      id := "g"
      nodes := [{
        id := "a"
        typeName := "schedule"
        params := [("from", .str "00:01"), ("to", .str "12:00")] }] }] }

/-- The first tick comes a minute and the grace after midnight, and the schedule switches on. -/
theorem ticks_recurrent_waking : ∃ (e' : Engine MemoryHost) (r : Runner) (n : Node)
    (last : Episode), (startingAt default).Period 10 waking [.advance 90000] e' ∧
      ((startingAt default).record 10 [.load waking, .advance 90000] 0 0).getLast? = some last ∧
      e'.Ticking r.graph.id n last ∧ last.time = 60020 ∧ e'.now = 90000 ∧
      n.ports.outputs = [.bool true] := by
  have hserved : ((startingAt default).serveAll 10 [.load waking, .advance 90000]).any (fun e' =>
      (e'.nodeAt? 0 0).any fun n => n.enabled = true ∧ n.ports.type = .schedule ∧
        e'.now = 90000 ∧ n.shown? = some true) = true := by
    decide +kernel
  have htime : ((startingAt default).record 10 [.load waking, .advance 90000] 0 0).getLast?.map
      Episode.time = some 60020 := by
    decide +kernel
  have hadvance : ∀ request ∈ ([.advance 90000] : List (Request MemoryHost)), ∀ c,
      request ≠ .load c := by
    simp
  obtain ⟨e', r, n, hperiod, hr, hn, henabled, htype, hnow, hshown⟩ :=
    exists_period_of_nodeAt? hadvance hserved
  have hticking : n.ports.type.isTicking = true := by
    rw [htype]
    rfl
  obtain ⟨-, -, last, hlast, hschedule, -⟩ := ticks_recurrent hperiod hr hn henabled hticking
  rw [hlast] at htime
  exact ⟨e', r, n, last, hperiod, hlast, (hschedule htype).1, Option.some.inj htime, hnow,
    Node.outputs_of_shown? hshown⟩

end Engine

end SignalGraph
