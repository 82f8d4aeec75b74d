import SignalGraph.Proofs.Node.Solitary

/-!
# Minute ticks

A weekly schedule and a running operating-hours meter have themselves evaluated again shortly after
the next full minute. Whatever happens to them, the evaluation arms the tick anew, so it is due as
many milliseconds after the last evaluation as the node then saw until the next tick
(`Node.Lives.ticking`).
-/

namespace SignalGraph

/-- The types that are evaluated every minute. -/
def NodeType.isTicking : NodeType → Bool
  | .schedule | .runtimeHours => true
  | _ => false

namespace Node

/-- Whether the node has to be evaluated again at the next full minute. -/
def needsTick (n : Node) : Bool :=
  match n.behavior with
  | .schedule _ => true
  | .hourMeter _ => n.level 0
  | _ => false

/-- What the last evaluation has left of the node: its tick is armed anew, unless it is an
operating-hours meter that does not run, and a weekly schedule shows whether it is on. -/
structure Ticking (n : Node) (last : Episode) : Prop where
  sole : n.timers.Sole .tick
    (if n.needsTick then some (last.time + last.reading.untilTick) else none)
  outputs_eq : ∀ s, n.behavior = .schedule s →
    n.ports.outputs = [.bool (s.isActive last.reading.localNow (n.level 0))]

variable {n₀ n n' m : Node} {due? : Option Nat} {eps : List Episode} {ep : Episode} {start : Moment}
  {trigger : Trigger}

/-- Why ever the node is evaluated, its own timer is the only one that may be armed before. -/
theorem Meets.exists_evaluates {key : TimerKey} (h : n.Meets key due? ep n')
    (hsole : n.timers.Sole key due?) : ∃ (m : Node) (trigger : Trigger) (due?' : Option Nat),
      m.behavior = n.behavior ∧ m.timers.Sole key due?' ∧
        m.Evaluates trigger ep.time ep.reading ep.commands n' := by
  cases h with
  | inputs _ hbehavior _ htimers hevaluates =>
    exact ⟨_, _, due?, hbehavior, htimers ▸ hsole, hevaluates⟩
  | fired _ _ hbehavior _ htimers hevaluates =>
    exact ⟨_, _, none, hbehavior, htimers, hevaluates⟩

theorem Evaluates.schedule {s : WeeklySchedule}
    (h : m.Evaluates trigger ep.time ep.reading ep.commands n') (hs : m.behavior = .schedule s)
    (hsole : m.timers.Sole .tick due?) : n'.behavior = .schedule s ∧ n'.Ticking ep := by
  have hreact : m.behavior.react (m.view trigger ep.reading) =
      .ok ((s.react (m.view trigger ep.reading)).map .schedule) := by
    rw [hs]
    rfl
  obtain ⟨hbehavior, houtputs, hobeys⟩ := h.of_react hreact
  refine ⟨hbehavior, ?_, ?_⟩
  · rw [needsTick, hbehavior]
    exact hsole.arm hobeys
  · intro s' hs'
    rw [h.level_eq]
    cases hbehavior.symm.trans hs'
    exact houtputs

theorem Evaluates.hourMeter {b : HourMeter}
    (h : m.Evaluates trigger ep.time ep.reading ep.commands n') (hb : m.behavior = .hourMeter b)
    (hsole : m.timers.Sole .tick due?) :
    (∃ b', n'.behavior = .hourMeter b') ∧ n'.Ticking ep := by
  have hreact : m.behavior.react (m.view trigger ep.reading) =
      .ok ((b.react (m.view trigger ep.reading)).map .hourMeter) := by
    rw [hb]
    rfl
  obtain ⟨hbehavior, -, hobeys⟩ := h.of_react hreact
  refine ⟨⟨_, hbehavior⟩, ?_, ?_⟩
  · rw [needsTick, hbehavior]
    show n'.timers.Sole .tick (if n'.level 0 then _ else none)
    rw [h.level_eq]
    dsimp only [Reaction.map, HourMeter.react] at hobeys
    rw [level_view] at hobeys
    cases hrun : m.level 0 with
    | true =>
      rw [hrun] at hobeys
      exact hsole.arm hobeys
    | false =>
      rw [hrun] at hobeys
      exact hsole.cancel hobeys
  · intro s hs
    cases hbehavior.symm.trans hs

/-- The node is a weekly schedule or an operating-hours meter. -/
def Ticks (n : Node) : Prop :=
  (n.ports.type = .schedule ∧ ∃ s, n.behavior = .schedule s) ∨
    (n.ports.type = .runtimeHours ∧ ∃ b, n.behavior = .hourMeter b)

theorem Ticks.inputBridge?_eq (h : n.Ticks) : n.behavior.inputBridge? = none := by
  rcases h with ⟨-, s, hs⟩ | ⟨-, b, hb⟩
  · rw [hs]
    rfl
  · rw [hb]
    rfl

theorem Ticks.exists_schedule (h : n.Ticks) (htype : n.ports.type = .schedule) :
    ∃ s, n.behavior = .schedule s := by
  rcases h with ⟨-, hs⟩ | ⟨hother, -⟩
  · exact hs
  · cases htype.symm.trans hother

theorem Ticks.exists_hourMeter (h : n.Ticks) (htype : n.ports.type = .runtimeHours) :
    ∃ b, n.behavior = .hourMeter b := by
  rcases h with ⟨hother, -⟩ | ⟨-, hb⟩
  · cases htype.symm.trans hother
  · exact hb

theorem Fresh.ticks (h : n.Fresh) (htype : n.ports.type.isTicking = true) : n.Ticks := by
  obtain ⟨p, hp⟩ := h.exists_params
  cases hty : n.ports.type with
  | schedule =>
    rw [hty] at hp
    obtain ⟨s, -, hs⟩ := exists_of_map_eq_ok hp
    exact .inl ⟨hty, s, hs.symm⟩
  | runtimeHours =>
    rw [hty] at hp
    obtain ⟨b, -, hb⟩ := exists_of_map_eq_ok hp
    exact .inr ⟨hty, b, hb.symm⟩
  | _ =>
    rw [hty] at htype
    cases htype

/-- Every episode of such a node leaves it ticking. -/
theorem Lives.ticking (h : n₀.Lives eps n) (hfresh : n₀.Fresh) (henabled : n₀.enabled = true)
    (htype : n₀.ports.type.isTicking = true) (hpunctual : Punctual start eps) :
    n.Ticks ∧ (∃ due?, n.timers.Sole .tick due?) ∧ ∀ last ∈ eps.getLast?, n.Ticking last := by
  induction h with
  | nil => exact ⟨hfresh.ticks htype, ⟨none, hfresh.timers⟩, nofun⟩
  | @snoc eps n n' ep hlives hundergoes ih =>
    obtain ⟨hticks, ⟨due?, hsole⟩, -⟩ := ih (hpunctual.sublist (List.sublist_append_left _ _))
    have hn : n.enabled = true := hlives.enabled_eq.trans henabled
    have hmem : ep ∈ eps ++ [ep] := List.mem_append_right _ (List.mem_singleton_self ep)
    have hmeets := hundergoes.meets hn hticks.inputBridge?_eq hsole (hpunctual.due ep hmem)
    obtain ⟨m, trigger, due?', hbehavior, hsole', hevaluates⟩ := hmeets.exists_evaluates hsole
    -- the evaluation arms the tick, whether or not it was armed before
    obtain ⟨hticks', hticking⟩ : n'.Ticks ∧ n'.Ticking ep := by
      have htype' : n'.ports.type = n.ports.type := (Lives.single hundergoes).type_eq
      rcases hticks with ⟨hty, s, hs⟩ | ⟨hty, b, hb⟩
      · obtain ⟨hn', hticking⟩ := hevaluates.schedule (hbehavior.trans hs) hsole'
        exact ⟨.inl ⟨htype'.trans hty, s, hn'⟩, hticking⟩
      · obtain ⟨hn', hticking⟩ := hevaluates.hourMeter (hbehavior.trans hb) hsole'
        exact ⟨.inr ⟨htype'.trans hty, hn'⟩, hticking⟩
    refine ⟨hticks', ⟨_, hticking.sole⟩, ?_⟩
    rw [List.getLast?_concat]
    rintro last ⟨⟩
    exact hticking

end Node

end SignalGraph
