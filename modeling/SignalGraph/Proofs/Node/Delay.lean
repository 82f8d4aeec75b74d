import SignalGraph.Proofs.Node.Solitary

/-!
# The timeline of delays

A node that switches on with a delay is on when its input has been true for that long since it rose
(`Node.Lives.delayOn`), and one that switches off with a delay is on while its input is true and for
that long after it fell (`Node.Lives.delayOff`). Meanwhile a timer is armed that is due at the end
of the delay. Nothing but a change of the level starts the delay anew or ends it.
-/

namespace SignalGraph

/-- This time has been reached in one of the episodes. -/
def Reached (eps : List Episode) (time : Nat) : Prop :=
  ∃ ep ∈ eps, time ≤ ep.time

theorem Reached.concat {eps : List Episode} {time : Nat} (h : Reached eps time) (ep : Episode) :
    Reached (eps ++ [ep]) time := by
  obtain ⟨ep', hep', hle⟩ := h
  exact ⟨ep', List.mem_append_left _ hep', hle⟩

theorem Reached.last (eps : List Episode) (ep : Episode) : Reached (eps ++ [ep]) ep.time :=
  ⟨ep, List.mem_append_right _ (List.mem_singleton_self ep), Nat.le_refl _⟩

namespace Node

variable {n₀ n : Node} {eps : List Episode} {start : Moment}

/-- The node has this behaviour, and after these episodes the law allows the level that it shows and
the time at which its timer is due. -/
def Lawful (n : Node) (b : Behavior) (Law : List Episode → Bool → Option Nat → Prop)
    (eps : List Episode) : Prop :=
  ∃ out due?, n.behavior = b ∧ n.Displays .main out due? ∧ Law eps out due?

/-- If an evaluation on the inputs and the fire of the timer keep a law, it holds throughout. -/
theorem Lives.lawful {b : Behavior} {Law : List Episode → Bool → Option Nat → Prop}
    (h : n₀.Lives eps n) (hfresh : n₀.Fresh) (henabled : n₀.enabled = true)
    (hpunctual : Punctual start eps) (hport : 0 < n₀.ports.inputs.length)
    (hb : n₀.behavior = b) (hbridge : b.inputBridge? = none) (hnew : Law [] false none)
    (hinputs : ∀ {eps ep} {m n' : Node} {out due?}, m.behavior = b → m.Stands .main out due? →
      m.Evaluates .inputs ep.time ep.reading ep.commands n' →
      n'.level 0 = levels (stores (eps ++ [ep])) 0 → Law eps out due? →
      n'.Lawful b Law (eps ++ [ep]))
    (hfired : ∀ {eps ep} {m n' : Node} {out due?}, m.behavior = b → m.timers = [] →
      m.Evaluates (.timer .main) ep.time ep.reading ep.commands n' →
      n'.level 0 = levels (stores (eps ++ [ep])) 0 → due? = some ep.time → ep.stored? = none →
      Law eps out due? → n'.Lawful b Law (eps ++ [ep])) :
    ∃ out due?, n.behavior = b ∧ n.level 0 = levels (stores eps) 0 ∧ Law eps out due? ∧
      (eps ≠ [] → n.Displays .main out due?) := by
  have hattended : ∃ out due?, (n.behavior = b ∧ Law eps out due?) ∧ n.Stands .main out due? ∧
      (eps ≠ [] → n.Displays .main out due?) := by
    refine h.attend .main (P := fun eps n out due? => n.behavior = b ∧ Law eps out due?)
      hfresh henabled hpunctual ?_ ⟨hb, hnew⟩ ?_
    · rintro eps n out due? ⟨rfl, -⟩
      exact hbridge
    · rintro eps n ep n' out due? hlives hundergoes ⟨hn, hlaw⟩ hstands hmeets
      have hlevel : n'.level 0 = levels (stores (eps ++ [ep])) 0 :=
        (hlives.snoc hundergoes).levels_eq hfresh hport
      have hlawful : n'.Lawful b Law (eps ++ [ep]) := by
        cases hmeets with
        | inputs _ hbehavior houtputs htimers hevaluates =>
          have hm := hstands.congr houtputs htimers
          exact hinputs (hbehavior.trans hn) hm hevaluates hlevel hlaw
        | fired hdue hstored hbehavior _ htimers hevaluates =>
          exact hfired (hbehavior.trans hn) htimers hevaluates hlevel hdue hstored hlaw
      obtain ⟨out', due?', hn', hdisplays, hlaw'⟩ := hlawful
      exact ⟨out', due?', hdisplays, hn', hlaw'⟩
  obtain ⟨out, due?, ⟨hbehavior, hlaw⟩, -, hdisplays⟩ := hattended
  exact ⟨out, due?, hbehavior, h.levels_eq hfresh hport, hlaw, hdisplays⟩

end Node

/-! ### Switching on with a delay -/

namespace DelayOn

/-- When the timer is due after an evaluation on the inputs. -/
def next? (d : DelayOn) (level out : Bool) (due? : Option Nat) (time : Nat) : Option Nat :=
  if level then if out || due?.isSome then due? else some (time + d.delay) else none

/-- Which level the node shows after these episodes, and when its timer is due. -/
inductive Law (d : DelayOn) (eps : List Episode) : Bool → Option Nat → Prop
  | off (hlevel : levels (stores eps) 0 = false) : Law d eps false none
  | waiting {rise : Nat} (hlevel : levels (stores eps) 0 = true)
    (hrise : lastEdge? .rising [0] eps = some ⟨0, rise⟩) : Law d eps false (some (rise + d.delay))
  | on {rise : Nat} (hlevel : levels (stores eps) 0 = true)
    (hrise : lastEdge? .rising [0] eps = some ⟨0, rise⟩) (hpast : Reached eps (rise + d.delay)) :
    Law d eps true none

variable {d : DelayOn} {eps : List Episode} {ep : Episode} {out : Bool} {due? : Option Nat}

theorem react_inputs (d : DelayOn) {v : View} (htrigger : v.trigger = .inputs)
    (hsettled : settled (v.output 0) = .bool out) (htruth : (v.output 0).truth = out) :
    d.react v = if v.level 0 then
        .out d (.bool out) (if out || v.isArmed .main then [] else [.arm .main d.delay])
      else .out d (.bool false) [.cancel .main] := by
  unfold react
  dsimp only
  rw [htrigger]
  dsimp only
  rw [hsettled, htruth]
  cases out <;> cases v.isArmed .main <;> rfl

theorem react_fired (d : DelayOn) {v : View} (htrigger : v.trigger = .timer .main)
    (hlevel : v.level 0 = true) : d.react v = .out d (.bool true) := by
  unfold react
  dsimp only
  rw [htrigger, hlevel]
  rfl

/-- An evaluation on the inputs keeps the law. -/
theorem Law.inputs (h : d.Law eps out due?) :
    d.Law (eps ++ [ep]) (levels (stores (eps ++ [ep])) 0 && out)
      (d.next? (levels (stores (eps ++ [ep])) 0) out due? ep.time) := by
  cases hnow : levels (stores (eps ++ [ep])) 0 with
  | false => exact .off hnow
  | true =>
    have hsame (hbefore : levels (stores eps) 0 = true) :
        lastEdge? .rising [0] (eps ++ [ep]) = lastEdge? .rising [0] eps := by
      refine lastEdge?_concat_of_not_isEdge fun port hport => ?_
      rw [List.mem_singleton.1 hport, hbefore, hnow]
      rfl
    cases h with
    | off hbefore =>
      -- the input rises now, so the delay starts
      have hedge : EdgeKind.rising.isEdge (levels (stores eps) 0)
          (levels (stores (eps ++ [ep])) 0) = true := by
        rw [hbefore, hnow]
        rfl
      exact .waiting hnow (lastEdge?_concat_of_isEdge [] hedge)
    | waiting hbefore hrise => exact .waiting hnow ((hsame hbefore).trans hrise)
    | on hbefore hrise hpast => exact .on hnow ((hsame hbefore).trans hrise) (hpast.concat ep)

/-- When the timer fires, the input has been true for the delay. -/
theorem Law.fired (h : d.Law eps out due?) (hdue : due? = some ep.time)
    (hstored : ep.stored? = none) :
    levels (stores (eps ++ [ep])) 0 = true ∧ d.Law (eps ++ [ep]) true none := by
  cases h with
  | off | on => cases hdue
  | @waiting rise hlevel hrise =>
    have hend : rise + d.delay = ep.time := Option.some.inj hdue
    have hlevel' : levels (stores (eps ++ [ep])) 0 = true := by
      rw [levels_concat_of_stored? hstored]
      exact hlevel
    have hrise' : lastEdge? .rising [0] (eps ++ [ep]) = some ⟨0, rise⟩ :=
      (lastEdge?_concat_of_stored? hstored).trans hrise
    refine ⟨hlevel', .on hlevel' hrise' ?_⟩
    rw [hend]
    exact .last eps ep

end DelayOn

namespace Node

variable {n₀ n n' m : Node} {out : Bool} {due? : Option Nat} {eps : List Episode} {ep : Episode}
  {start : Moment} {time : Nat} {reading : Reading} {commands : List Command}

section DelayOn

variable {d : DelayOn}

theorem Evaluates.delayOn (h : m.Evaluates .inputs time reading commands n')
    (hd : m.behavior = .delayOn d) (hstands : m.Stands .main out due?) :
    n'.behavior = .delayOn d ∧
      n'.Displays .main (n'.level 0 && out) (d.next? (n'.level 0) out due? time) := by
  have hreact : m.behavior.react (m.view .inputs reading) =
      .ok ((d.react (m.view .inputs reading)).map .delayOn) := by
    rw [hd]
    rfl
  -- the reaction depends on three truth values: the level, the output and whether the timer is
  -- armed
  rw [d.react_inputs (v := m.view .inputs reading) rfl hstands.settled_eq hstands.truth_eq,
    level_view, isArmed_view, hstands.sole.isArmed_eq] at hreact
  rw [h.level_eq, DelayOn.next?]
  cases hlevel : m.level 0 with
  | false =>
    rw [hlevel] at hreact
    obtain ⟨hbehavior, houtputs, hobeys⟩ := h.of_react hreact
    exact ⟨hbehavior, houtputs, hstands.sole.cancel hobeys⟩
  | true =>
    rw [hlevel] at hreact
    cases hwait : out || due?.isSome with
    | false =>
      rw [hwait] at hreact
      obtain ⟨hbehavior, houtputs, hobeys⟩ := h.of_react hreact
      exact ⟨hbehavior, houtputs, hstands.sole.arm hobeys⟩
    | true =>
      rw [hwait] at hreact
      obtain ⟨hbehavior, houtputs, hobeys⟩ := h.of_react hreact
      exact ⟨hbehavior, houtputs, hstands.sole.nil hobeys⟩

theorem Evaluates.delayOn_fired (h : m.Evaluates (.timer .main) time reading commands n')
    (hd : m.behavior = .delayOn d) (htimers : m.timers = []) (hlevel : n'.level 0 = true) :
    n'.behavior = .delayOn d ∧ n'.Displays .main true none := by
  have hreact : m.behavior.react (m.view (.timer .main) reading) =
      .ok ((d.react (m.view (.timer .main) reading)).map .delayOn) := by
    rw [hd]
    rfl
  rw [h.level_eq] at hlevel
  rw [d.react_fired (v := m.view (.timer .main) reading) rfl hlevel] at hreact
  obtain ⟨hbehavior, houtputs, hobeys⟩ := h.of_react hreact
  have hsole : m.timers.Sole .main none := htimers
  exact ⟨hbehavior, houtputs, hsole.nil hobeys⟩

/-- A node that switches on with a delay keeps to its timeline. -/
theorem Lives.delayOn (h : n₀.Lives eps n) (hfresh : n₀.Fresh) (henabled : n₀.enabled = true)
    (htype : n₀.ports.type = .delayOn) (hpunctual : Punctual start eps) :
    ∃ d out due?, n.behavior = .delayOn d ∧ n.level 0 = levels (stores eps) 0 ∧
      d.Law eps out due? ∧ (eps ≠ [] → n.Displays .main out due?) := by
  obtain ⟨p, hp⟩ := hfresh.exists_params
  rw [htype] at hp
  obtain ⟨d, -, hd⟩ := exists_of_map_eq_ok hp
  have hport : 0 < n₀.ports.inputs.length := by
    rw [hfresh.fits.inputs, htype]
    decide
  refine ⟨d, h.lawful hfresh henabled hpunctual hport hd.symm rfl (.off rfl) ?_ ?_⟩
  · intro eps ep m n' out due? hm hstands hevaluates hlevel hlaw
    obtain ⟨hn', hdisplays⟩ := hevaluates.delayOn hm hstands
    rw [hlevel] at hdisplays
    exact ⟨_, _, hn', hdisplays, hlaw.inputs⟩
  · intro eps ep m n' out due? hm htimers hevaluates hlevel hdue hstored hlaw
    obtain ⟨hnow, hlaw'⟩ := hlaw.fired hdue hstored
    obtain ⟨hn', hdisplays⟩ := hevaluates.delayOn_fired hm htimers (hlevel.trans hnow)
    exact ⟨true, none, hn', hdisplays, hlaw'⟩

end DelayOn

end Node

/-! ### Switching off with a delay -/

namespace DelayOff

variable {d : DelayOff} {eps : List Episode} {ep : Episode} {out : Bool} {due? : Option Nat}

/-- When the timer is due after an evaluation on the inputs. -/
def next? (d : DelayOff) (level out : Bool) (due? : Option Nat) (time : Nat) : Option Nat :=
  if level then none else if out && due?.isNone then some (time + d.hold) else due?

/-- Which level the node shows after these episodes, and when its timer is due. -/
inductive Law (d : DelayOff) (eps : List Episode) : Bool → Option Nat → Prop
  | on (hlevel : levels (stores eps) 0 = true) : Law d eps true none
  /-- The input has never been true. -/
  | never (hlevel : levels (stores eps) 0 = false)
    (hnever : ∀ value ∈ storedAt 0 eps, value.truth = false) : Law d eps false none
  | holding {fall : Nat} (hlevel : levels (stores eps) 0 = false)
    (hfall : lastEdge? .falling [0] eps = some ⟨0, fall⟩) : Law d eps true (some (fall + d.hold))
  | off {fall : Nat} (hlevel : levels (stores eps) 0 = false)
    (hfall : lastEdge? .falling [0] eps = some ⟨0, fall⟩) (hpast : Reached eps (fall + d.hold)) :
    Law d eps false none

theorem react_inputs (d : DelayOff) {v : View} (htrigger : v.trigger = .inputs)
    (hsettled : settled (v.output 0) = .bool out) (htruth : (v.output 0).truth = out) :
    d.react v = if v.level 0 then .out d (.bool true) [.cancel .main]
      else .out d (.bool out) (if out && !v.isArmed .main then [.arm .main d.hold] else []) := by
  unfold react
  dsimp only
  rw [htrigger]
  dsimp only
  rw [hsettled, htruth]

theorem react_fired (d : DelayOff) {v : View} (htrigger : v.trigger = .timer .main)
    (hlevel : v.level 0 = false) : d.react v = .out d (.bool false) := by
  unfold react
  dsimp only
  rw [htrigger, hlevel]
  rfl

/-- An evaluation on the inputs keeps the law. -/
theorem Law.inputs (h : d.Law eps out due?) :
    d.Law (eps ++ [ep]) (levels (stores (eps ++ [ep])) 0 || out)
      (d.next? (levels (stores (eps ++ [ep])) 0) out due? ep.time) := by
  cases hnow : levels (stores (eps ++ [ep])) 0 with
  | true => exact .on hnow
  | false =>
    have hsame (hbefore : levels (stores eps) 0 = false) :
        lastEdge? .falling [0] (eps ++ [ep]) = lastEdge? .falling [0] eps := by
      refine lastEdge?_concat_of_not_isEdge fun port hport => ?_
      rw [List.mem_singleton.1 hport, hbefore, hnow]
      rfl
    cases h with
    | on hbefore =>
      -- the input falls now, so the delay starts
      have hedge : EdgeKind.falling.isEdge (levels (stores eps) 0)
          (levels (stores (eps ++ [ep])) 0) = true := by
        rw [hbefore, hnow]
        rfl
      exact .holding hnow (lastEdge?_concat_of_isEdge [] hedge)
    | never hbefore hnever =>
      refine .never hnow fun value hvalue => ?_
      rw [storedAt_concat] at hvalue
      rcases List.mem_append.1 hvalue with hvalue | hvalue
      · exact hnever value hvalue
      · rw [levels_stores_concat, Option.mem_toList.1 hvalue] at hnow
        exact hnow
    | holding hbefore hfall => exact .holding hnow ((hsame hbefore).trans hfall)
    | off hbefore hfall hpast => exact .off hnow ((hsame hbefore).trans hfall) (hpast.concat ep)

/-- When the timer fires, the input has been false for the delay. -/
theorem Law.fired (h : d.Law eps out due?) (hdue : due? = some ep.time)
    (hstored : ep.stored? = none) :
    levels (stores (eps ++ [ep])) 0 = false ∧ d.Law (eps ++ [ep]) false none := by
  cases h with
  | on | never | off => cases hdue
  | @holding fall hlevel hfall =>
    have hend : fall + d.hold = ep.time := Option.some.inj hdue
    have hlevel' : levels (stores (eps ++ [ep])) 0 = false := by
      rw [levels_concat_of_stored? hstored]
      exact hlevel
    have hfall' : lastEdge? .falling [0] (eps ++ [ep]) = some ⟨0, fall⟩ :=
      (lastEdge?_concat_of_stored? hstored).trans hfall
    refine ⟨hlevel', .off hlevel' hfall' ?_⟩
    rw [hend]
    exact .last eps ep

end DelayOff

namespace Node

variable {n₀ n n' m : Node} {out : Bool} {due? : Option Nat} {eps : List Episode} {ep : Episode}
  {start : Moment} {time : Nat} {reading : Reading} {commands : List Command} {d : DelayOff}

theorem Evaluates.delayOff (h : m.Evaluates .inputs time reading commands n')
    (hd : m.behavior = .delayOff d) (hstands : m.Stands .main out due?) :
    n'.behavior = .delayOff d ∧
      n'.Displays .main (n'.level 0 || out) (d.next? (n'.level 0) out due? time) := by
  have hreact : m.behavior.react (m.view .inputs reading) =
      .ok ((d.react (m.view .inputs reading)).map .delayOff) := by
    rw [hd]
    rfl
  rw [d.react_inputs (v := m.view .inputs reading) rfl hstands.settled_eq hstands.truth_eq,
    level_view, isArmed_view, hstands.sole.isArmed_eq] at hreact
  rw [h.level_eq, DelayOff.next?]
  cases hlevel : m.level 0 with
  | true =>
    rw [hlevel] at hreact
    obtain ⟨hbehavior, houtputs, hobeys⟩ := h.of_react hreact
    exact ⟨hbehavior, houtputs, hstands.sole.cancel hobeys⟩
  | false =>
    rw [hlevel] at hreact
    -- the delay starts only where the output is on and none is under way
    cases hstarts : out && !due?.isSome with
    | true =>
      rw [hstarts] at hreact
      obtain ⟨hbehavior, houtputs, hobeys⟩ := h.of_react hreact
      refine ⟨hbehavior, houtputs, ?_⟩
      rw [← Option.not_isSome, hstarts]
      exact hstands.sole.arm hobeys
    | false =>
      rw [hstarts] at hreact
      obtain ⟨hbehavior, houtputs, hobeys⟩ := h.of_react hreact
      refine ⟨hbehavior, houtputs, ?_⟩
      rw [← Option.not_isSome, hstarts]
      exact hstands.sole.nil hobeys

theorem Evaluates.delayOff_fired (h : m.Evaluates (.timer .main) time reading commands n')
    (hd : m.behavior = .delayOff d) (htimers : m.timers = []) (hlevel : n'.level 0 = false) :
    n'.behavior = .delayOff d ∧ n'.Displays .main false none := by
  have hreact : m.behavior.react (m.view (.timer .main) reading) =
      .ok ((d.react (m.view (.timer .main) reading)).map .delayOff) := by
    rw [hd]
    rfl
  rw [h.level_eq] at hlevel
  rw [d.react_fired (v := m.view (.timer .main) reading) rfl hlevel] at hreact
  obtain ⟨hbehavior, houtputs, hobeys⟩ := h.of_react hreact
  have hsole : m.timers.Sole .main none := htimers
  exact ⟨hbehavior, houtputs, hsole.nil hobeys⟩

/-- A node that switches off with a delay, or extends pulses, keeps to its timeline. -/
theorem Lives.delayOff (h : n₀.Lives eps n) (hfresh : n₀.Fresh) (henabled : n₀.enabled = true)
    (htype : n₀.ports.type = .delayOff ∨ n₀.ports.type = .pulseExtend)
    (hpunctual : Punctual start eps) :
    ∃ d out due?, n.behavior = .delayOff d ∧ n.level 0 = levels (stores eps) 0 ∧
      d.Law eps out due? ∧ (eps ≠ [] → n.Displays .main out due?) := by
  obtain ⟨d, hd⟩ : ∃ d, n₀.behavior = .delayOff d := by
    obtain ⟨p, hp⟩ := hfresh.exists_params
    rcases htype with htype | htype
    all_goals
      rw [htype] at hp
      obtain ⟨d, -, hd⟩ := exists_of_map_eq_ok hp
      exact ⟨d, hd.symm⟩
  have hport : 0 < n₀.ports.inputs.length := by
    rw [hfresh.fits.inputs]
    rcases htype with htype | htype
    all_goals
      rw [htype]
      decide
  -- both types have the same law, which one evaluation keeps by inputs and by the timer
  refine ⟨d, h.lawful hfresh henabled hpunctual hport hd rfl (.never rfl nofun) ?_ ?_⟩
  · intro eps ep m n' out due? hm hstands hevaluates hlevel hlaw
    obtain ⟨hn', hdisplays⟩ := hevaluates.delayOff hm hstands
    rw [hlevel] at hdisplays
    exact ⟨_, _, hn', hdisplays, hlaw.inputs⟩
  · intro eps ep m n' out due? hm htimers hevaluates hlevel hdue hstored hlaw
    obtain ⟨hnow, hlaw'⟩ := hlaw.fired hdue hstored
    obtain ⟨hn', hdisplays⟩ := hevaluates.delayOff_fired hm htimers (hlevel.trans hnow)
    exact ⟨false, none, hn', hdisplays, hlaw'⟩

end Node

end SignalGraph
