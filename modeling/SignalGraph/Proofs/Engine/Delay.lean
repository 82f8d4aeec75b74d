import SignalGraph.Proofs.Engine.Period
import SignalGraph.Proofs.Node.Arming
import SignalGraph.Proofs.Node.Delay

/-!
# Delays in a run

Between two requests, a node that switches on with a delay is on exactly if its input has been true
for that long, and otherwise its timer waits for the end of the delay if the input is true
(`Engine.switches_on`). A node that switches off with a delay holds its output for that long after
its input has fallen, and its timer waits meanwhile (`Engine.switches_off`).
-/

namespace SignalGraph

namespace Engine

variable {H : Type}

/-- What a node that switches on with this delay shows, given what has happened to it. -/
structure SwitchesOn (e : Engine H) (graph : String) (n : Node) (delay : Nat) (eps : List Episode) :
    Prop where
  low : n.level 0 = false → n.ports.outputs = [.bool false] ∧ n.timers = []
  /-- The delay has passed since the input rose, or the timer waits for its end. -/
  high : n.level 0 = true → ∃ rise, lastEdge? .rising [0] eps = some ⟨0, rise⟩ ∧
    ((n.ports.outputs = [.bool true] ∧ n.timers = [] ∧ rise + delay ≤ e.now) ∨
      (n.ports.outputs = [.bool false] ∧ e.Awaits graph n .main (rise + delay)))

/-- What a node that switches off with this delay shows, given what has happened to it. -/
structure SwitchesOff (e : Engine H) (graph : String) (n : Node) (hold : Nat) (eps : List Episode) :
    Prop where
  high : n.level 0 = true → n.ports.outputs = [.bool true] ∧ n.timers = []
  never : (∀ value ∈ storedAt 0 eps, value.truth = false) →
    n.level 0 = false ∧ n.ports.outputs = [.bool false] ∧ n.timers = []
  /-- The timer waits for the end of the delay, or the delay has passed since the input fell. -/
  low : n.level 0 = false → ∀ value ∈ storedAt 0 eps, value.truth = true →
    ∃ fall, lastEdge? .falling [0] eps = some ⟨0, fall⟩ ∧
      ((n.ports.outputs = [.bool true] ∧ e.Awaits graph n .main (fall + hold)) ∨
        (n.ports.outputs = [.bool false] ∧ n.timers = [] ∧ fall + hold ≤ e.now))

variable {e e' : Engine H} {n : Node} {eps : List Episode} {out : Bool} {due? : Option Nat}
  {graph : String}

theorem Clocked.le_now {time : Nat} (h : e.Clocked eps) (hreached : Reached eps time) :
    time ≤ e.now := by
  obtain ⟨ep, hep, hle⟩ := hreached
  exact Nat.le_trans hle (h.time_le ep hep)

theorem SwitchesOn.of_law {d : DelayOn} (hlaw : d.Law eps out due?) (hclocked : e.Clocked eps)
    (hlevel : n.level 0 = levels (stores eps) 0) (hdisplays : n.Displays .main out due?)
    (hawaits : ∀ due, due? = some due → e.Awaits graph n .main due) :
    e.SwitchesOn graph n d.delay eps := by
  cases hlaw with
  | off hlow =>
    refine ⟨fun _ => ⟨hdisplays.outputs_eq, hdisplays.sole⟩, fun hhigh => ?_⟩
    cases hlow.symm.trans (hlevel.symm.trans hhigh)
  | waiting hhigh hrise =>
    refine ⟨fun hlow => ?_, fun _ => ⟨_, hrise, .inr ⟨hdisplays.outputs_eq, hawaits _ rfl⟩⟩⟩
    cases hhigh.symm.trans (hlevel.symm.trans hlow)
  | on hhigh hrise hpast =>
    refine ⟨fun hlow => ?_, fun _ => ⟨_, hrise, .inl ⟨hdisplays.outputs_eq, hdisplays.sole, ?_⟩⟩⟩
    · cases hhigh.symm.trans (hlevel.symm.trans hlow)
    · exact hclocked.le_now hpast

theorem SwitchesOff.of_law {d : DelayOff} (hlaw : d.Law eps out due?) (hclocked : e.Clocked eps)
    (hlevel : n.level 0 = levels (stores eps) 0) (hdisplays : n.Displays .main out due?)
    (hawaits : ∀ due, due? = some due → e.Awaits graph n .main due) :
    e.SwitchesOff graph n d.hold eps := by
  -- a port that has never been true has not fallen
  have hfallen {fall : Nat} (hfall : lastEdge? .falling [0] eps = some ⟨0, fall⟩)
      (hnever : ∀ value ∈ storedAt 0 eps, value.truth = false) : False := by
    cases (lastEdge?_falling_of_never hnever).2.symm.trans hfall
  cases hlaw with
  | on hhigh =>
    have hdiffers {P : Prop} (hlow : levels (stores eps) 0 = false) : P := by
      cases hhigh.symm.trans hlow
    refine ⟨fun _ => ⟨hdisplays.outputs_eq, hdisplays.sole⟩, fun hnever => ?_, fun hlow => ?_⟩
    · exact hdiffers (lastEdge?_falling_of_never hnever).1
    · exact hdiffers (hlevel.symm.trans hlow)
  | never hlow hnever =>
    refine ⟨fun hhigh => ?_, fun _ => ?_, fun _ value hvalue htrue => ?_⟩
    · cases hlow.symm.trans (hlevel.symm.trans hhigh)
    · exact ⟨hlevel.trans hlow, hdisplays.outputs_eq, hdisplays.sole⟩
    · cases (hnever value hvalue).symm.trans htrue
  | holding hlow hfall =>
    refine ⟨fun hhigh => ?_, fun hnever => (hfallen hfall hnever).elim, fun _ _ _ _ => ?_⟩
    · cases hlow.symm.trans (hlevel.symm.trans hhigh)
    · exact ⟨_, hfall, .inl ⟨hdisplays.outputs_eq, hawaits _ rfl⟩⟩
  | off hlow hfall hpast =>
    refine ⟨fun hhigh => ?_, fun hnever => (hfallen hfall hnever).elim, fun _ _ _ _ => ?_⟩
    · cases hlow.symm.trans (hlevel.symm.trans hhigh)
    · exact ⟨_, hfall, .inr ⟨hdisplays.outputs_eq, hdisplays.sole, hclocked.le_now hpast⟩⟩

/-- When no timer is due any more, a node that switches on with a delay is on exactly if its input
has been true for that long. -/
theorem SwitchesOn.iff {delay : Nat} (h : e.SwitchesOn graph n delay eps)
    (hclocked : e.Clocked eps) (hlevel : n.level 0 = levels (stores eps) 0)
    (hdrained : ∀ entry ∈ e.world.timeline.pending, e.now < entry.1.due) :
    n.ports.outputs = [.bool true] ↔ ∃ time, HighSince 0 eps time ∧ time + delay ≤ e.now := by
  constructor
  · intro hout
    cases hnow : n.level 0 with
    | false => cases hout.symm.trans (h.low hnow).1
    | true =>
      obtain ⟨rise, hrise, ⟨-, -, hpassed⟩ | ⟨hoff, -⟩⟩ := h.high hnow
      · exact ⟨rise, highSince_of_lastEdge? (hlevel.symm.trans hnow) hrise, hpassed⟩
      · cases hout.symm.trans hoff
  · rintro ⟨time, hhigh, hpassed⟩
    obtain ⟨rise, hrise, ⟨hon, -, -⟩ | ⟨-, hawaits⟩⟩ := h.high (hlevel.trans hhigh.level)
    · exact hon
    · -- a timer that still waits is due later, but the delay has passed
      obtain ⟨timer, ticket, -, -, -, hdue, -, hpending⟩ := hawaits
      have hrose := hhigh.rise_le hclocked.punctual.sorted hrise
      have hlater := hdrained _ hpending
      dsimp only at hlater
      omega

variable [Host H] {limit i j : Nat} {c : Configuration} {later : List (Request H)} {r : Runner}

/-- Between two requests, an enabled node that switches on with a delay keeps to its timeline. While
its input is false, so is its output, and no timer is armed. While its input is true, either the
delay has passed since the input rose and the output is true, or a timer waits for its end. So when
time has passed, the output is true exactly if the input has been true for the delay. -/
theorem switches_on (h : e.Period limit c later e') (hr : e'.runners[i]? = some r)
    (hn : r.graph.nodes[j]? = some n) (henabled : n.enabled = true)
    (htype : n.ports.type = .delayOn) :
    c.Declares r.graph.id n ∧ e'.Clocked (e.record limit (.load c :: later) i j) ∧
      ∃ d, n.behavior = .delayOn d ∧
        e'.SwitchesOn r.graph.id n d.delay (e.record limit (.load c :: later) i j) ∧
        ∀ earlier millis, later = earlier ++ [.advance millis] →
          (n.ports.outputs = [.bool true] ↔
            ∃ time, HighSince 0 (e.record limit (.load c :: later) i j) time ∧
              time + d.delay ≤ e'.now) := by
  obtain ⟨hdeclares, n₀, hfresh, hlives⟩ := h.exists_lives hr hn
  have hclocked := h.clocked i j
  obtain ⟨d, out, due?, hd, hlevel, hlaw, hdisplays⟩ := hlives.delayOn hfresh
    (hlives.enabled_eq.symm.trans henabled) (hlives.type_eq.symm.trans htype) hclocked.punctual
  have hrecord := h.record_ne_nil hr hn henabled (by rw [hd]; rfl)
  have hon : e'.SwitchesOn r.graph.id n d.delay (e.record limit (.load c :: later) i j) := by
    refine .of_law hlaw hclocked hlevel (hdisplays hrecord) ?_
    rintro due rfl
    exact h.working_end.awaits hr hn (hdisplays hrecord).sole
  refine ⟨hdeclares, hclocked, d, hd, hon, fun earlier millis hlater => ?_⟩
  exact hon.iff hclocked hlevel (h.now_lt_of_advance hlater)

/-- A bridge passes its signal on to a node that switches on with a delay of a second. -/
def patient : Configuration :=
  { graphs := [{
      id := "g"
      nodes := [{ id := "a", typeName := "dp_in", params := [("dp", .str "x")] },
        { id := "b", typeName := "delay_on", params := [("delay_ms", .int 1000)] }]
      links := [⟨⟨"a", "out"⟩, ⟨"b", "in"⟩⟩] }] }

/-- The signal becomes true, and another true value comes before the delay has passed. -/
def persistent : List (Request MemoryHost) :=
  [.advance 500, .change ⟨"x", .bool true⟩, .advance 400, .change ⟨"x", .str "on"⟩, .advance 600]

/-- The second value does not start the delay anew. -/
theorem switches_on_patient : ∃ (e' : Engine MemoryHost) (r : Runner) (n : Node) (d : DelayOn),
    (startingAt default).Period 10 patient persistent e' ∧ n.behavior = .delayOn d ∧
      e'.SwitchesOn r.graph.id n d.delay
        ((startingAt default).record 10 (.load patient :: persistent) 0 1) ∧
      d.delay = 1000 ∧ e'.now = 1500 ∧ n.ports.outputs = [.bool true] := by
  have hserved : ((startingAt default).serveAll 10 (.load patient :: persistent)).any (fun e' =>
      (e'.nodeAt? 0 1).any fun n => n.enabled = true ∧ n.ports.type = .delayOn ∧
        n.behavior.length? = some 1000 ∧ e'.now = 1500 ∧ n.shown? = some true) = true := by
    decide +kernel
  have hlast : ∀ request ∈ persistent, ∀ c, request ≠ .load c := by
    simp [persistent]
  obtain ⟨e', r, n, hperiod, hr, hn, henabled, htype, hlength, hnow, hshown⟩ :=
    exists_period_of_nodeAt? hlast hserved
  obtain ⟨-, -, d, hd, hon, -⟩ := switches_on hperiod hr hn henabled htype
  rw [hd] at hlength
  exact ⟨e', r, n, d, hperiod, hd, hon, Option.some.inj hlength, hnow,
    Node.outputs_of_shown? hshown⟩

/-- Between two requests, an enabled node that switches off with a delay, or extends pulses, keeps
to its timeline. While its input is true, so is its output, and no timer is armed. If its input has
never been true, its output is false, and no timer is armed. Otherwise a timer waits for the end of
the delay that has started when the input fell, or the delay has passed and the output is false. -/
theorem switches_off (h : e.Period limit c later e') (hr : e'.runners[i]? = some r)
    (hn : r.graph.nodes[j]? = some n) (henabled : n.enabled = true)
    (htype : n.ports.type = .delayOff ∨ n.ports.type = .pulseExtend) :
    c.Declares r.graph.id n ∧ e'.Clocked (e.record limit (.load c :: later) i j) ∧
      ∃ d, n.behavior = .delayOff d ∧
        e'.SwitchesOff r.graph.id n d.hold (e.record limit (.load c :: later) i j) := by
  obtain ⟨hdeclares, n₀, hfresh, hlives⟩ := h.exists_lives hr hn
  have hclocked := h.clocked i j
  rw [hlives.type_eq] at htype
  obtain ⟨d, out, due?, hd, hlevel, hlaw, hdisplays⟩ := hlives.delayOff hfresh
    (hlives.enabled_eq.symm.trans henabled) htype hclocked.punctual
  have hrecord := h.record_ne_nil hr hn henabled (by rw [hd]; rfl)
  refine ⟨hdeclares, hclocked, d, hd, .of_law hlaw hclocked hlevel (hdisplays hrecord) ?_⟩
  rintro due rfl
  exact h.working_end.awaits hr hn (hdisplays hrecord).sole

/-- A bridge passes its signal on to a node that switches off with a delay of a second. -/
def lingering : Configuration :=
  { graphs := [{
      id := "g"
      nodes := [{ id := "a", typeName := "dp_in", params := [("dp", .str "x")] },
        { id := "b", typeName := "delay_off", params := [("delay_ms", .int 1000)] }]
      links := [⟨⟨"a", "out"⟩, ⟨"b", "in"⟩⟩] }] }

/-- The signal becomes true and false, and another false value comes before the delay has passed. -/
def retreating : List (Request MemoryHost) :=
  [.change ⟨"x", .bool true⟩, .advance 300, .change ⟨"x", .bool false⟩, .advance 700,
    .change ⟨"x", .str "off"⟩, .advance 200]

/-- The delay ends a second after the input has fallen. -/
theorem switches_off_lingering : ∃ (e' : Engine MemoryHost) (r : Runner) (n : Node) (d : DelayOff),
    (startingAt default).Period 10 lingering retreating e' ∧ n.behavior = .delayOff d ∧
      e'.SwitchesOff r.graph.id n d.hold
        ((startingAt default).record 10 (.load lingering :: retreating) 0 1) ∧
      d.hold = 1000 ∧ e'.now = 1200 ∧ n.ports.outputs = [.bool true] := by
  have hserved : ((startingAt default).serveAll 10 (.load lingering :: retreating)).any (fun e' =>
      (e'.nodeAt? 0 1).any fun n => n.enabled = true ∧ n.ports.type = .delayOff ∧
        n.behavior.length? = some 1000 ∧ e'.now = 1200 ∧ n.shown? = some true) = true := by
    decide +kernel
  have hlast : ∀ request ∈ retreating, ∀ c, request ≠ .load c := by
    simp [retreating]
  obtain ⟨e', r, n, hperiod, hr, hn, henabled, htype, hlength, hnow, hshown⟩ :=
    exists_period_of_nodeAt? hlast hserved
  obtain ⟨-, -, d, hd, hoff⟩ := switches_off hperiod hr hn henabled (.inl htype)
  rw [hd] at hlength
  exact ⟨e', r, n, d, hperiod, hd, hoff, Option.some.inj hlength, hnow,
    Node.outputs_of_shown? hshown⟩

end Engine

end SignalGraph
