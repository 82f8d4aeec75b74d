import SignalGraph.Proofs.Engine.Edges
import SignalGraph.Proofs.Engine.Writes

/-!
# Scene triggers in a run

A scene trigger writes its payload once at each edge, to the signal that its scene has at that
moment. If it has a pulse, it owes that signal a reset, which comes one pulse later unless another
payload replaces it first; what is written to other signals makes no difference
(`Engine.scenes_reset`). The timers of the node are its debts: one for each signal whose last write
was a payload (`SceneTrigger.Keeps`).
-/

namespace SignalGraph

variable {H : Type} [Host H] {ctx : LoadContext}

/-! ### Payloads that are still to be reset -/

/-- This is written to, whatever the value. -/
def Occurrence.writesTo (ctx : LoadContext) (o : Occurrence (Logged H)) (signal : String) : Bool :=
  (o.writes ctx).any fun write => write.signal == signal

/-- At this time something else than a fire has written to the signal, and nothing has been written
to it since. -/
def Pending (ctx : LoadContext) (signal : String) (time : Nat) (os : List (Occurrence (Logged H))) :
    Prop :=
  ∃ before o after, os = before ++ o :: after ∧ o.occasion.isFired = false ∧
    o.writesTo ctx signal = true ∧ o.time = time ∧ ∀ x ∈ after, x.writesTo ctx signal = false

section Pending

variable {signal : String} {time : Nat} {os os' : List (Occurrence (Logged H))}
  {o : Occurrence (Logged H)}

theorem not_pending_nil : ¬ Pending (H := H) ctx signal time [] := by
  rintro ⟨before, o, after, heq, -⟩
  simp at heq

/-- One more occurrence: either it writes to the signal itself, or it leaves the signal alone. -/
theorem pending_concat : Pending ctx signal time (os ++ [o]) ↔
    (o.occasion.isFired = false ∧ o.writesTo ctx signal = true ∧ o.time = time) ∨
      (o.writesTo ctx signal = false ∧ Pending ctx signal time os) := by
  constructor
  · rintro ⟨before, x, after, heq, hfired, hwrites, htime, hafter⟩
    rcases List.eq_nil_or_concat' after with rfl | ⟨after, last, rfl⟩
    · obtain ⟨rfl, rfl⟩ : os = before ∧ o = x := by simpa using List.append_inj' heq rfl
      exact .inl ⟨hfired, hwrites, htime⟩
    · rw [← List.cons_append, ← List.append_assoc] at heq
      obtain ⟨rfl, rfl⟩ : os = before ++ x :: after ∧ o = last := by
        simpa using List.append_inj' heq rfl
      refine .inr ⟨hafter o (by simp), before, x, after, rfl, hfired, hwrites, htime, ?_⟩
      exact fun y hy => hafter y (List.mem_append_left _ hy)
  · rintro (⟨hfired, hwrites, htime⟩ |
      ⟨hnone, before, x, after, rfl, hfired, hwrites, htime, hafter⟩)
    · exact ⟨os, o, [], rfl, hfired, hwrites, htime, nofun⟩
    · refine ⟨before, x, after ++ [o], by simp, hfired, hwrites, htime, fun y hy => ?_⟩
      rcases List.mem_append.1 hy with hy | hy
      · exact hafter y hy
      · rw [List.mem_singleton.1 hy]
        exact hnone

/-- There is at most one such time. -/
theorem Pending.time_eq {time' : Nat} (h : Pending ctx signal time os)
    (h' : Pending ctx signal time' os) : time = time' := by
  induction os using List.reverseRecOn with
  | nil => exact (not_pending_nil h).elim
  | append_singleton os o ih =>
    rcases pending_concat.1 h with ⟨-, hwrites, rfl⟩ | ⟨hnone, h⟩
    · rcases pending_concat.1 h' with ⟨-, -, rfl⟩ | ⟨hnone, -⟩
      · rfl
      · cases hwrites.symm.trans hnone
    · rcases pending_concat.1 h' with ⟨-, hwrites, -⟩ | ⟨-, h'⟩
      · cases hnone.symm.trans hwrites
      · exact ih h h'

/-- What is pending at the end of a moment has been written in it, or was pending before. -/
theorem Pending.of_append {now : Nat} (h : Pending ctx signal time (os ++ os'))
    (hnow : ∀ o ∈ os', o.time = now) : time = now ∨ Pending ctx signal time os := by
  induction os' using List.reverseRecOn with
  | nil =>
    rw [List.append_nil] at h
    exact .inr h
  | append_singleton os' o ih =>
    rw [← List.append_assoc] at h
    rcases pending_concat.1 h with ⟨-, -, rfl⟩ | ⟨-, h⟩
    · exact .inl (hnow o (List.mem_append_right _ (List.mem_singleton_self o)))
    · exact ih h fun x hx => hnow x (List.mem_append_left _ hx)

end Pending

/-! ### One occurrence -/

namespace Node

/-- An enabled node is evaluated for a timer that has fired, or on its inputs. -/
theorem Undergoes.fired_or_inputs {n n' : Node} {ep : Episode} (h : n.Undergoes ep n')
    (henabled : n.enabled = true) (hbridge : n.behavior.inputBridge? = none) :
    (∃ timer timers, ep.occasion = .fired timer ∧ n.timers.Perm (timer :: timers) ∧
        Evaluates { n with timers := timers } (.timer timer.key) ep.time ep.reading ep.commands
          n') ∨
      ep.occasion.isFired = false ∧ ep.occasion.isReceived = false := by
  cases h with
  | stored hdisabled | dropped hdisabled => cases henabled.symm.trans hdisabled
  | delivered | primed => exact .inr ⟨rfl, rfl⟩
  | fired _ _ hperm hevaluates => exact .inl ⟨_, _, rfl, hperm, hevaluates⟩
  | received _ hsome => cases hbridge.symm.trans hsome

/-- No two timers of the node ever have the same key. -/
theorem Undergoes.uniqueKeys {n n' : Node} {ep : Episode} (h : n.Undergoes ep n')
    (hunique : n.timers.UniqueKeys) : n'.timers.UniqueKeys := by
  have hsteps := h.steps
  clear h
  induction hsteps with
  | refl => exact hunique
  | tail _ hstep ih => exact hstep.uniqueKeys ih

end Node

namespace SceneTrigger

/-- What something that happens to an enabled scene trigger makes it write and arm. -/
inductive Acts (ctx : LoadContext) (s : SceneTrigger) (o : Occurrence (Logged H)) (n n' : Node) :
    Prop
  /-- Without an edge or without a signal, nothing. -/
  | rests (hfired : o.occasion.isFired = false)
    (hnone : s.kind.isEdge (n.level 0) (n'.level 0) = true →
      s.target? ctx.scenes o.stage.world.host.host = none)
    (hwrites : o.writes ctx = []) (htimers : n'.timers = n.timers)
  /-- It writes the payload and arms the timer of the signal. -/
  | pays {signal : String} (hfired : o.occasion.isFired = false)
    (hedge : s.kind.isEdge (n.level 0) (n'.level 0) = true)
    (htarget : s.target? ctx.scenes o.stage.world.host.host = some signal)
    (hwrites : o.writes ctx = [⟨signal, s.payload, s.ack⟩])
    (hkept : s.pulse = 0 → n'.timers = n.timers)
    (harmed : 0 < s.pulse → ∃ timer : ArmedTimer, timer.key = .pulse signal ∧
      timer.DueAt (o.time + s.pulse) ∧ n'.timers = n.timers.remove (.pulse signal) ++ [timer])
  /-- The timer of a signal has fired, and the reset value is written there. -/
  | resets {signal : String} {timer : ArmedTimer} (hfired : o.occasion = .fired timer)
    (hedge : s.kind.isEdge (n.level 0) (n'.level 0) = false) (hkey : timer.key = .pulse signal)
    (hperm : n.timers.Perm (timer :: n'.timers))
    (hwrites : o.writes ctx = [⟨signal, s.resetValue, s.ack⟩])

variable {s : SceneTrigger} {o : Occurrence (Logged H)} {n n' : Node}

/-- An evaluation on the inputs. -/
theorem acts_of_inputs (hs : n.behavior = .sceneTrigger { s with level := n.level 0 })
    (henabled : n.enabled = true) (hbefore : o.before? = some n) (hafter : o.after? ctx = some n')
    (hfired : o.occasion.isFired = false) (hreceived : o.occasion.isReceived = false) :
    n'.behavior = .sceneTrigger { s with level := n'.level 0 } ∧ s.Acts ctx o n n' := by
  have hevaluates : o.evaluates = true := by
    rw [Occurrence.evaluates_eq hbefore, hreceived, henabled]
    rfl
  have htrigger := Occasion.trigger_eq_inputs hfired
  have hbehavior := o.occasion.behavior_prepare n
  have htimers := Occasion.timers_prepare hfired n
  -- the reaction reads the prepared node, of which only the behaviour and the timers matter
  generalize hm : o.occasion.prepare n = m at hbehavior htimers
  have hreact : m.behavior.react (m.view o.occasion.trigger (o.stage.world.reading ctx.settings)) =
      .ok ((onInputs { s with level := n.level 0 }
        (m.view .inputs (o.stage.world.reading ctx.settings))).map .sceneTrigger) := by
    rw [hbehavior, hs, htrigger]
    rfl
  unfold onInputs at hreact
  dsimp only at hreact
  rw [Node.level_view] at hreact
  cases hedge : s.kind.isEdge (n.level 0) (m.level 0) with
  | false =>
    rw [hedge] at hreact
    obtain ⟨graph, id, hn', hworld⟩ := Occurrence.of_react ctx hbefore hevaluates hm hreact
    cases hafter.symm.trans hn'
    refine ⟨rfl, .rests hfired (fun h => ?_) (Occurrence.writes_eq ctx (.of_host_eq ?_)) htimers⟩
    · cases hedge.symm.trans h
    · rw [hworld]
      rfl
  | true =>
    rw [hedge] at hreact
    obtain ⟨graph, id, hn', hworld⟩ := Occurrence.of_react ctx hbefore hevaluates hm hreact
    cases hafter.symm.trans hn'
    refine ⟨rfl, ?_⟩
    -- without a target the edge is seen but not answered
    cases htarget : s.target? ctx.scenes o.stage.world.host.host with
    | none =>
      obtain ⟨hkept, hwrites⟩ :=
        World.carryOut_trigger_of_none ctx graph id m.timers o.stage.world s htarget
      refine .rests hfired (fun _ => htarget) (Occurrence.writes_eq ctx ?_) (hkept.trans htimers)
      rw [hworld]
      exact hwrites
    | some signal =>
      obtain ⟨hwrites, hkept, harmed⟩ :=
        World.carryOut_trigger_of_some ctx graph id m.timers o.stage.world s htarget
      refine .pays hfired hedge htarget (Occurrence.writes_eq ctx ?_) (fun h => ?_) fun h => ?_
      · rw [hworld]
        exact hwrites
      · exact (hkept h).trans htimers
      · obtain ⟨timer, hkey, hdue, htimers'⟩ := harmed h
        exact ⟨timer, hkey, hdue, htimers ▸ htimers'⟩

/-- A timer of a signal has fired. -/
theorem acts_of_fired (hs : n.behavior = .sceneTrigger { s with level := n.level 0 })
    (henabled : n.enabled = true) (hbefore : o.before? = some n) (hafter : o.after? ctx = some n')
    {timer : ArmedTimer} {signal : String} (hfired : o.occasion = .fired timer)
    (hkey : timer.key = .pulse signal) (hperm : n.timers.Perm (timer :: n'.timers)) :
    n'.behavior = .sceneTrigger { s with level := n'.level 0 } ∧ s.Acts ctx o n n' := by
  have hevaluates : o.evaluates = true := by
    rw [Occurrence.evaluates_eq hbefore, hfired, henabled]
    rfl
  have hreact : (o.occasion.prepare n).behavior.react
      ((o.occasion.prepare n).view o.occasion.trigger (o.stage.world.reading ctx.settings)) =
        .ok (.keep (.sceneTrigger { s with level := n.level 0 })
          ((o.occasion.prepare n).view o.occasion.trigger (o.stage.world.reading ctx.settings))
          [.write signal s.resetValue s.ack]) := by
    rw [hfired, Occasion.prepare, Occasion.trigger, hkey]
    dsimp only
    rw [hs]
    rfl
  obtain ⟨graph, id, hn', hworld⟩ := Occurrence.of_react ctx hbefore hevaluates rfl hreact
  cases hafter.symm.trans hn'
  -- a timer that fires changes no input, so the level remembered is still the one at the input
  have hlevel : (o.occasion.prepare n).level 0 = n.level 0 := by
    rw [hfired]
    rfl
  refine ⟨?_, .resets hfired ?_ hkey hperm (Occurrence.writes_eq ctx ?_)⟩
  · exact congrArg (fun level => Behavior.sceneTrigger { s with level := level }) hlevel.symm
  · show s.kind.isEdge (n.level 0) ((o.occasion.prepare n).level 0) = false
    rw [hlevel]
    exact EdgeKind.not_isEdge_self _ _
  · rw [hworld]
    exact .write _ _ _ _

/-- Whatever happens to a scene trigger whose timers are those of signals. -/
theorem acts (hs : n.behavior = .sceneTrigger { s with level := n.level 0 })
    (henabled : n.enabled = true) (hkeys : ∀ timer ∈ n.timers, ∃ signal, timer.key = .pulse signal)
    (hbefore : o.before? = some n) (hafter : o.after? ctx = some n')
    (hundergoes : n.Undergoes (o.episode ctx) n') :
    n'.behavior = .sceneTrigger { s with level := n'.level 0 } ∧ s.Acts ctx o n n' := by
  have hbridge : n.behavior.inputBridge? = none := by
    rw [hs]
    rfl
  rcases hundergoes.fired_or_inputs henabled hbridge with
    ⟨timer, timers, hfired, hperm, hevaluates⟩ | ⟨hfired, hreceived⟩
  · obtain ⟨signal, hkey⟩ := hkeys timer (hperm.symm.subset List.mem_cons_self)
    rw [hkey] at hevaluates
    have hreact : ({ n with timers := timers } : Node).behavior.react
        (Node.view { n with timers := timers } (.timer (.pulse signal)) (o.episode ctx).reading) =
          .ok (.keep (.sceneTrigger { s with level := n.level 0 })
            (Node.view { n with timers := timers } (.timer (.pulse signal)) (o.episode ctx).reading)
            [.write signal s.resetValue s.ack]) := by
      dsimp only
      rw [hs]
      rfl
    -- a write leaves the timers alone
    obtain ⟨-, -, hobeys⟩ := hevaluates.of_react hreact
    have htimers : n'.timers = timers := by
      cases hobeys with
      | cons hfirst hrest =>
        cases hfirst
        cases hrest
        rfl
    exact acts_of_fired hs henabled hbefore hafter hfired hkey (htimers ▸ hperm)
  · exact acts_of_inputs hs henabled hbefore hafter hfired hreceived

/-! ### Debts -/

/-- The timers of a scene trigger are its debts: one for each signal with a payload that is still to
be reset, due one pulse after the payload. -/
structure Keeps (ctx : LoadContext) (s : SceneTrigger) (os : List (Occurrence (Logged H)))
    (n : Node) : Prop where
  behavior_eq : n.behavior = .sceneTrigger { s with level := n.level 0 }
  uniqueKeys : n.timers.UniqueKeys
  owed : ∀ timer ∈ n.timers, 0 < s.pulse ∧ ∃ signal time, timer.key = .pulse signal ∧
    Pending ctx signal time os ∧ timer.DueAt (time + s.pulse)
  armed : 0 < s.pulse → ∀ {signal time}, Pending ctx signal time os →
    ∃ timer ∈ n.timers, timer.key = .pulse signal ∧ timer.DueAt (time + s.pulse)

variable {os : List (Occurrence (Logged H))}

theorem Keeps.exists_signal (h : s.Keeps ctx os n) :
    ∀ timer ∈ n.timers, ∃ signal, timer.key = .pulse signal := by
  intro timer htimer
  obtain ⟨-, signal, time, hkey, -⟩ := h.owed timer htimer
  exact ⟨signal, hkey⟩

theorem writesTo_singleton {write : Write} (hwrites : o.writes ctx = [write]) (signal : String) :
    o.writesTo ctx signal = (write.signal == signal) := by
  rw [Occurrence.writesTo, hwrites, List.any_cons, List.any_nil, Bool.or_false]

section Concat

variable (hbehavior : n'.behavior = .sceneTrigger { s with level := n'.level 0 })
  (hunique : n'.timers.UniqueKeys)

include hbehavior hunique

/-- Nothing is written, so all debts stay. -/
theorem Keeps.rests (h : s.Keeps ctx os n) (hwrites : o.writes ctx = [])
    (htimers : n'.timers = n.timers) : s.Keeps ctx (os ++ [o]) n' := by
  have hsilent : ∀ signal, o.writesTo ctx signal = false := by
    intro signal
    rw [Occurrence.writesTo, hwrites]
    rfl
  refine ⟨hbehavior, hunique, ?_, ?_⟩
  · intro timer htimer
    obtain ⟨hpulse, signal, time, hkey, hpending, hdue⟩ := h.owed timer (htimers ▸ htimer)
    exact ⟨hpulse, signal, time, hkey, pending_concat.2 (.inr ⟨hsilent signal, hpending⟩), hdue⟩
  · intro hpulse signal time hpending
    rcases pending_concat.1 hpending with ⟨-, hwrites, -⟩ | ⟨-, hpending⟩
    · cases (hsilent signal).symm.trans hwrites
    · rw [htimers]
      exact h.armed hpulse hpending

/-- The debt to the signal of the scene is made anew, and the others stay. -/
theorem Keeps.pays {signal : String} (h : s.Keeps ctx os n) (hfired : o.occasion.isFired = false)
    (hwrites : o.writes ctx = [⟨signal, s.payload, s.ack⟩])
    (hkept : s.pulse = 0 → n'.timers = n.timers)
    (harmed : 0 < s.pulse → ∃ timer : ArmedTimer, timer.key = .pulse signal ∧
      timer.DueAt (o.time + s.pulse) ∧ n'.timers = n.timers.remove (.pulse signal) ++ [timer]) :
    s.Keeps ctx (os ++ [o]) n' := by
  have hwritesTo := writesTo_singleton hwrites
  refine ⟨hbehavior, hunique, ?_, ?_⟩
  · intro timer htimer
    rcases Nat.eq_zero_or_pos s.pulse with hpulse | hpulse
    · -- without a pulse there have never been any debts
      obtain ⟨hpulse', -⟩ := h.owed timer (hkept hpulse ▸ htimer)
      omega
    · obtain ⟨new, hkey, hdue, htimers⟩ := harmed hpulse
      rw [htimers] at htimer
      rcases List.mem_append.1 htimer with htimer | htimer
      · obtain ⟨-, other, time, hother, hpending, hdue⟩ :=
          h.owed timer (List.mem_of_mem_eraseP htimer)
        have hne : signal ≠ other := by
          rintro rfl
          exact h.uniqueKeys.key_notMem_remove (.pulse signal)
            (List.mem_map.2 ⟨timer, htimer, hother⟩)
        refine ⟨hpulse, other, time, hother, pending_concat.2 (.inr ⟨?_, hpending⟩), hdue⟩
        rw [hwritesTo]
        exact beq_eq_false_iff_ne.2 hne
      · rw [List.mem_singleton.1 htimer]
        refine ⟨hpulse, signal, o.time, hkey, pending_concat.2 (.inl ⟨hfired, ?_, rfl⟩), hdue⟩
        rw [hwritesTo]
        exact beq_self_eq_true signal
  · intro hpulse other time hpending
    obtain ⟨new, hkey, hdue, htimers⟩ := harmed hpulse
    rw [htimers]
    rcases pending_concat.1 hpending with ⟨-, hwritten, rfl⟩ | ⟨hnone, hpending⟩
    · rw [hwritesTo, beq_iff_eq] at hwritten
      subst hwritten
      exact ⟨new, List.mem_append_right _ (List.mem_singleton_self new), hkey, hdue⟩
    · obtain ⟨timer, htimer, hother, hdue⟩ := h.armed hpulse hpending
      refine ⟨timer, List.mem_append_left _ ?_, hother, hdue⟩
      rw [hwritesTo] at hnone
      refine (List.mem_eraseP_of_neg ?_).2 htimer
      rw [hother, beq_iff_eq, TimerKey.pulse.injEq]
      exact fun heq => beq_eq_false_iff_ne.1 hnone heq.symm

/-- The debt of the timer that has fired is settled, and the others stay. -/
theorem Keeps.resets {signal : String} {timer : ArmedTimer} (h : s.Keeps ctx os n)
    (hfired : o.occasion = .fired timer) (hkey : timer.key = .pulse signal)
    (hperm : n.timers.Perm (timer :: n'.timers))
    (hwrites : o.writes ctx = [⟨signal, s.resetValue, s.ack⟩]) : s.Keeps ctx (os ++ [o]) n' := by
  have hwritesTo := writesTo_singleton hwrites
  have hkeys : (n.timers.map ArmedTimer.key).Perm (timer.key :: n'.timers.map ArmedTimer.key) :=
    hperm.map _
  have hothers := (List.nodup_cons.1 (hkeys.nodup_iff.1 h.uniqueKeys)).1
  refine ⟨hbehavior, hunique, ?_, ?_⟩
  · intro other hother
    obtain ⟨hpulse, signal', time, hkey', hpending, hdue⟩ :=
      h.owed other (hperm.symm.subset (List.mem_cons_of_mem _ hother))
    refine ⟨hpulse, signal', time, hkey', pending_concat.2 (.inr ⟨?_, hpending⟩), hdue⟩
    rw [hwritesTo]
    refine beq_eq_false_iff_ne.2 fun heq => hothers ?_
    rw [hkey, show signal = signal' from heq, ← hkey']
    exact List.mem_map_of_mem hother
  · intro hpulse signal' time hpending
    rcases pending_concat.1 hpending with ⟨hinputs, -⟩ | ⟨hnone, hpending⟩
    · rw [hfired] at hinputs
      cases hinputs
    · obtain ⟨other, hother, hkey', hdue⟩ := h.armed hpulse hpending
      rcases List.mem_cons.1 (hperm.subset hother) with rfl | hother
      · -- this is the timer that has fired, whose signal has been written to
        rw [hwritesTo] at hnone
        exact (beq_eq_false_iff_ne.1 hnone (TimerKey.pulse.inj (hkey.symm.trans hkey'))).elim
      · exact ⟨other, hother, hkey', hdue⟩

/-- What an occurrence does keeps the debts. -/
theorem Keeps.concat (h : s.Keeps ctx os n) (hacts : s.Acts ctx o n n') :
    s.Keeps ctx (os ++ [o]) n' := by
  cases hacts with
  | rests _ _ hwrites htimers => exact h.rests hbehavior hunique hwrites htimers
  | pays hfired _ _ hwrites hkept harmed =>
    exact h.pays hbehavior hunique hfired hwrites hkept harmed
  | resets hfired _ hkey hperm hwrites => exact h.resets hbehavior hunique hfired hkey hperm hwrites

end Concat

end SceneTrigger

/-! ### Lives -/

theorem SceneTrigger.level_of_ofParams {p : Params} {s : SceneTrigger} (h : ofParams p = .ok s) :
    s.level = false := by
  obtain ⟨scene, -, h⟩ := exists_of_bind_eq_ok h
  obtain ⟨fallback, -, h⟩ := exists_of_bind_eq_ok h
  dsimp only at h
  split at h
  · -- without a scene and a signal, there is no trigger
    obtain ⟨_, herror, -⟩ := exists_of_bind_eq_ok h
    cases herror
  · obtain ⟨kind, -, h⟩ := exists_of_bind_eq_ok h
    obtain ⟨pulse, -, h⟩ := exists_of_bind_eq_ok h
    obtain ⟨ack, -, h⟩ := exists_of_bind_eq_ok h
    cases h
    rfl

namespace Node

variable {n₀ n : Node} {os : List (Occurrence (Logged H))} {s : SceneTrigger} {start : Moment}

/-- A new scene trigger owes nothing. -/
theorem Fresh.exists_keeps (h : n.Fresh) (htype : n.ports.type = .scene) :
    ∃ s : SceneTrigger, s.Keeps (H := H) ctx [] n := by
  obtain ⟨p, hp⟩ := h.exists_params
  rw [htype] at hp
  obtain ⟨s, hs, hn⟩ := exists_of_map_eq_ok hp
  have hlevel : n.level 0 = false := by
    rw [level, h.inputAt_eq]
    rfl
  refine ⟨s, ?_, ?_, ?_, ?_⟩
  · rw [hlevel, ← hn, ← SceneTrigger.level_of_ofParams hs]
  · rw [h.timers]
    exact List.nodup_nil
  · intro timer htimer
    rw [h.timers] at htimer
    cases htimer
  · intro _ signal time hpending
    exact (not_pending_nil hpending).elim

/-- A scene trigger keeps its debts throughout. -/
theorem Becomes.keeps (h : n₀.Becomes ctx os n) (henabled : n₀.enabled = true)
    (hkeeps : s.Keeps (H := H) ctx [] n₀) : s.Keeps ctx os n := by
  induction h with
  | nil => exact hkeeps
  | @snoc os o n n' hbecomes hbefore hafter hundergoes ih =>
    have hn : n.enabled = true := hbecomes.lives.enabled_eq.trans henabled
    obtain ⟨hbehavior, hacts⟩ :=
      SceneTrigger.acts ih.behavior_eq hn ih.exists_signal hbefore hafter hundergoes
    exact ih.concat hbehavior (hundergoes.uniqueKeys ih.uniqueKeys) hacts

/-- What is pending has been written at this very time, or its timer is not due before `bound`. -/
theorem Reached.le_of_pending {time bound begun : Nat} {signal : String}
    (h : n₀.Reached ctx time bound os) (henabled : n₀.enabled = true)
    (hkeeps : s.Keeps (H := H) ctx [] n₀) (hpulse : 0 < s.pulse)
    (hpending : Pending ctx signal begun os) : begun = time ∨ bound ≤ begun + s.pulse := by
  obtain ⟨hbecomes, hupcoming, htime⟩ := h
  refine (hpending.of_append htime).imp_right fun hpending => ?_
  obtain ⟨timer, htimer, -, hdue⟩ := (hbecomes.keeps henabled hkeeps).armed hpulse hpending
  obtain ⟨ticket, hticket, hle⟩ := hupcoming timer htimer
  rwa [← hdue ticket hticket]

/-- What each occurrence makes a scene trigger write. -/
theorem Becomes.exists_acts {before after : List (Occurrence (Logged H))}
    {o : Occurrence (Logged H)} (h : n₀.Becomes ctx (before ++ o :: after) n)
    (henabled : n₀.enabled = true) (hkeeps : s.Keeps (H := H) ctx [] n₀) :
    ∃ n₁ n₂, s.Keeps ctx before n₁ ∧ o.before? = some n₁ ∧ o.after? ctx = some n₂ ∧
      s.Acts ctx o n₁ n₂ := by
  obtain ⟨n₁, n₂, hbecomes, hbefore, hafter, hundergoes, -⟩ := h.split
  have hkeeps₁ := hbecomes.keeps henabled hkeeps
  have hn₁ : n₁.enabled = true := hbecomes.lives.enabled_eq.trans henabled
  obtain ⟨-, hacts⟩ :=
    SceneTrigger.acts hkeeps₁.behavior_eq hn₁ hkeeps₁.exists_signal hbefore hafter hundergoes
  exact ⟨n₁, n₂, hkeeps₁, hbefore, hafter, hacts⟩

end Node

/-! ### What a scene trigger writes -/

/-- What is written to a signal after a payload whose reset is due then. -/
inductive Followed (ctx : LoadContext) (signal : String) (due now : Nat)
    (after : List (Occurrence (Logged H))) : Prop
  /-- First comes the reset, when it is due. -/
  | reset {between rest : List (Occurrence (Logged H))} {o : Occurrence (Logged H)}
    (hafter : after = between ++ o :: rest)
    (hbetween : ∀ x ∈ between, x.writesTo ctx signal = false)
    (hwrites : o.writesTo ctx signal = true) (hfired : o.occasion.isFired = true)
    (htime : o.time = due)
  /-- First comes another payload, while the reset is still awaited. -/
  | replaced {between rest : List (Occurrence (Logged H))} {o : Occurrence (Logged H)}
    (hafter : after = between ++ o :: rest)
    (hbetween : ∀ x ∈ between, x.writesTo ctx signal = false)
    (hwrites : o.writesTo ctx signal = true) (hfired : o.occasion.isFired = false)
    (htime : o.time ≤ due)
  /-- Nothing has come yet, as the reset is not due yet. -/
  | awaited (hnone : ∀ x ∈ after, x.writesTo ctx signal = false) (hnow : now < due)

namespace SceneTrigger

/-- What a scene trigger has written since a load, with the time it is now. -/
structure Settles (ctx : LoadContext) (s : SceneTrigger) (now : Nat)
    (os : List (Occurrence (Logged H))) : Prop where
  /-- An evaluation on the inputs writes the payload at an edge, once, to the signal that the scene
  has at that moment, and nothing else. -/
  triggered : ∀ o ∈ os, o.occasion.isFired = false → o.writes ctx =
    if o.bringsEdge ctx s.kind then ((s.target? ctx.scenes o.stage.world.host.host).map
      fun signal => ⟨signal, s.payload, s.ack⟩).toList
    else []
  /-- A fire brings no edge. It writes the reset value, once, one pulse after the payload that it
  resets. -/
  fired : ∀ before o after, os = before ++ o :: after → o.occasion.isFired = true →
    o.bringsEdge ctx s.kind = false ∧ 0 < s.pulse ∧ ∃ signal begun,
      o.writes ctx = [⟨signal, s.resetValue, s.ack⟩] ∧ Pending ctx signal begun before ∧
      o.time = begun + s.pulse
  /-- With a pulse, each payload is followed by a reset of its signal or replaced by another one. -/
  followed : 0 < s.pulse → ∀ before o after, os = before ++ o :: after →
    o.occasion.isFired = false → ∀ signal, o.writesTo ctx signal = true →
      Followed ctx signal (o.time + s.pulse) now after

end SceneTrigger

namespace Node

variable {n₀ n : Node} {os before after : List (Occurrence (Logged H))} {s : SceneTrigger}
  {o : Occurrence (Logged H)}

/-- An evaluation on the inputs. -/
theorem Becomes.triggered (h : n₀.Becomes ctx os n) (henabled : n₀.enabled = true)
    (hkeeps : s.Keeps (H := H) ctx [] n₀) (ho : o ∈ os) (hinputs : o.occasion.isFired = false) :
    o.writes ctx =
      if o.bringsEdge ctx s.kind then ((s.target? ctx.scenes o.stage.world.host.host).map
        fun signal => ⟨signal, s.payload, s.ack⟩).toList
      else [] := by
  obtain ⟨before, after, rfl⟩ := List.append_of_mem ho
  obtain ⟨n₁, n₂, -, hbefore, hafter, hacts⟩ := h.exists_acts henabled hkeeps
  rw [Occurrence.bringsEdge, hbefore, hafter, Option.any_some, Option.any_some]
  cases hacts with
  | rests _ hnone hwrites =>
    rw [hwrites]
    split
    · next hedge =>
      rw [hnone hedge]
      rfl
    · rfl
  | pays _ hedge htarget hwrites =>
    rw [if_pos hedge, htarget, hwrites]
    rfl
  | resets hfired =>
    rw [hfired] at hinputs
    cases hinputs

/-- A fire. -/
theorem Becomes.reset_of_fired (h : n₀.Becomes ctx (before ++ o :: after) n)
    (henabled : n₀.enabled = true) (hkeeps : s.Keeps (H := H) ctx [] n₀)
    (hdue : ∀ timer, o.occasion = .fired timer → timer.Due o.time)
    (hfired : o.occasion.isFired = true) :
    o.bringsEdge ctx s.kind = false ∧ 0 < s.pulse ∧ ∃ signal begun,
      o.writes ctx = [⟨signal, s.resetValue, s.ack⟩] ∧ Pending ctx signal begun before ∧
      o.time = begun + s.pulse := by
  obtain ⟨n₁, n₂, hkeeps₁, hbefore, hafter, hacts⟩ := h.exists_acts henabled hkeeps
  rw [Occurrence.bringsEdge, hbefore, hafter, Option.any_some, Option.any_some]
  cases hacts with
  | rests hinputs | pays hinputs => cases hfired.symm.trans hinputs
  | @resets signal timer hoccasion hedge hkey hperm hwrites =>
    obtain ⟨hpulse, signal', begun, hkey', hpending, hend⟩ :=
      hkeeps₁.owed timer (hperm.symm.subset List.mem_cons_self)
    obtain rfl : signal = signal' := TimerKey.pulse.inj (hkey.symm.trans hkey')
    obtain ⟨ticket, hticket, htime⟩ := hdue timer hoccasion
    exact ⟨hedge, hpulse, signal, begun, hwrites, hpending, htime ▸ hend ticket hticket⟩

/-- What follows a payload. -/
theorem Advances.followed {now : Nat} (h : n₀.Advances ctx (before ++ o :: after) n)
    (hreached : n₀.Reached ctx now (now + 1) (before ++ o :: after)) (henabled : n₀.enabled = true)
    (hkeeps : s.Keeps (H := H) ctx [] n₀)
    (hdue : ∀ x ∈ before ++ o :: after, ∀ timer, x.occasion = .fired timer → timer.Due x.time)
    (hpulse : 0 < s.pulse) (hinputs : o.occasion.isFired = false) {signal : String}
    (hwrites : o.writesTo ctx signal = true) :
    Followed ctx signal (o.time + s.pulse) now after := by
  cases hfind : after.find? fun x => x.writesTo ctx signal with
  | none =>
    have hnone : ∀ x ∈ after, x.writesTo ctx signal = false := by
      simpa using hfind
    refine .awaited hnone ?_
    have hpending : Pending ctx signal o.time (before ++ o :: after) :=
      ⟨before, o, after, rfl, hinputs, hwrites, rfl, hnone⟩
    have hbound := hreached.le_of_pending henabled hkeeps hpulse hpending
    omega
  | some next =>
    obtain ⟨hnext, between, rest, rfl, hbetween⟩ := List.find?_eq_some_iff_append.1 hfind
    have hnone : ∀ x ∈ between, x.writesTo ctx signal = false := by
      simpa using hbetween
    have hpending : Pending ctx signal o.time (before ++ o :: between) :=
      ⟨before, o, between, rfl, hinputs, hwrites, rfl, hnone⟩
    rw [← List.cons_append, ← List.append_assoc] at h hdue
    cases hfired : next.occasion.isFired with
    | true =>
      -- the reset that comes is that of this payload
      have hmem : next ∈ before ++ o :: between ++ next :: rest :=
        List.mem_append_right _ List.mem_cons_self
      obtain ⟨-, -, signal', begun, hreset, hpending', htime⟩ :=
        h.becomes.reset_of_fired henabled hkeeps (hdue next hmem) hfired
      have hsignal : signal' = signal := by
        rw [SceneTrigger.writesTo_singleton hreset] at hnext
        exact beq_iff_eq.1 hnext
      subst hsignal
      rw [hpending'.time_eq hpending] at htime
      exact .reset rfl hnone hnext hfired htime
    | false =>
      refine .replaced rfl hnone hnext hfired ?_
      have hbound := h.reached.le_of_pending henabled hkeeps hpulse hpending
      omega

theorem Advances.settles {now : Nat} (h : n₀.Advances ctx os n)
    (hreached : n₀.Reached ctx now (now + 1) os) (henabled : n₀.enabled = true)
    (hkeeps : s.Keeps (H := H) ctx [] n₀)
    (hdue : ∀ o ∈ os, ∀ timer, o.occasion = .fired timer → timer.Due o.time) :
    s.Settles ctx now os := by
  refine ⟨fun o ho => h.becomes.triggered henabled hkeeps ho, ?_, ?_⟩
  · rintro before o after rfl
    exact h.becomes.reset_of_fired henabled hkeeps
      (hdue o (List.mem_append_right _ List.mem_cons_self))
  · rintro hpulse before o after rfl hinputs signal
    exact h.followed hreached henabled hkeeps hdue hpulse hinputs

end Node

namespace Engine

variable {e e' : Engine (Logged H)} {limit i j : Nat} {c : Configuration}
  {later : List (Request (Logged H))} {r : Runner} {n : Node}

/-- An enabled scene trigger writes its payload once at each edge, to the signal that its scene has
at that moment. With a pulse, each payload is reset one pulse later, unless another payload for the
same signal comes before. Nothing else is written. -/
theorem scenes_reset (h : e.Period limit c later e') (hr : e'.runners[i]? = some r)
    (hn : r.graph.nodes[j]? = some n) (henabled : n.enabled = true)
    (htype : n.ports.type = .scene) :
    c.Declares r.graph.id n ∧ e'.context.scenes = c.scenes ∧ ∃ s, n.behavior = .sceneTrigger s ∧
      s.Settles e'.context e'.now (e.account limit (.load c :: later) i j) := by
  obtain ⟨hdeclares, -⟩ := h.exists_lives hr hn
  obtain ⟨n₀, hfresh, hadvances, hreached⟩ := h.exists_reached hr hn
  have hbecomes := hadvances.becomes
  have henabled₀ : n₀.enabled = true := hbecomes.lives.enabled_eq.symm.trans henabled
  rw [hbecomes.lives.type_eq] at htype
  obtain ⟨s, hkeeps⟩ : ∃ s : SceneTrigger, s.Keeps (H := H) e'.context [] n₀ :=
    hfresh.exists_keeps htype
  have hbehavior := (hbecomes.keeps henabled₀ hkeeps).behavior_eq
  have hdue : ∀ o ∈ e.account limit (.load c :: later) i j, ∀ timer,
      o.occasion = .fired timer → timer.Due o.time := by
    intro o ho
    have hpunctual := (h.clocked i j).punctual
    rw [← h.map_account i j] at hpunctual
    exact hpunctual.due _ (List.mem_map_of_mem ho)
  have hsettles := hadvances.settles hreached henabled₀ hkeeps hdue
  -- the level of the input makes no difference
  exact ⟨hdeclares, h.scenes_eq, _, hbehavior, hsettles.triggered, hsettles.fired,
    hsettles.followed⟩

/-- A bridge passes its signal on to a scene trigger with a pulse of a quarter of a second. -/
def evening : Configuration :=
  { graphs := [{
      id := "g"
      nodes := [{ id := "a", typeName := "dp_in", params := [("dp", .str "x")] },
        { id := "b", typeName := "scene",
          params := [("scene", .str "evening"), ("edge", .str "both"), ("pulse_ms", .int 250)] }]
      links := [⟨⟨"a", "out"⟩, ⟨"b", "in"⟩⟩] }]
    scenes := [("evening", "lamp")] }

/-- After the first edge, the host learns about another signal of the scene. -/
def registering : List (Request (Logged MemoryHost)) :=
  [.change ⟨"x", .bool true⟩, .advance 100, .host { host := { devices := [("evening", "hall")] } },
    .change ⟨"x", .bool false⟩, .advance 100, .change ⟨"x", .bool true⟩, .advance 200]

/-- An engine that has not loaded anything yet, on a host in memory with a log. -/
def unloaded : Engine (Logged MemoryHost) :=
  new { host := default } { start := default }

/-- The edges that follow write to the other signal, and the first signal is reset all the same. -/
theorem scenes_reset_registering : ∃ (e' : Engine (Logged MemoryHost)) (r : Runner) (n : Node)
    (s : SceneTrigger), unloaded.Period 10 evening registering e' ∧ e'.runners[0]? = some r ∧
      r.graph.nodes[1]? = some n ∧ n.enabled = true ∧ n.behavior = .sceneTrigger s ∧
      s.Settles e'.context e'.now (unloaded.account 10 (.load evening :: registering) 0 1) ∧
      ((unloaded.account 10 (.load evening :: registering) 0 1).flatMap fun o =>
        (o.writes e'.context).map fun write => (o.time, write.signal, write.value.truth)) =
          [(0, "lamp", true), (100, "hall", true), (200, "hall", true), (250, "lamp", false)] := by
  have hserved : (unloaded.serveAll 10 (.load evening :: registering)).any (fun e' =>
      (e'.nodeAt? 0 1).any fun n => n.enabled = true ∧ n.ports.type = .scene ∧
        ((unloaded.account 10 (.load evening :: registering) 0 1).flatMap fun o =>
          (o.writes e'.context).map fun write => (o.time, write.signal, write.value.truth)) =
            [(0, "lamp", true), (100, "hall", true), (200, "hall", true), (250, "lamp", false)]) =
      true := by
    decide +kernel
  have hlast : ∀ request ∈ registering, ∀ c, request ≠ .load c := by
    simp [registering]
  obtain ⟨e', r, n, hperiod, hr, hn, henabled, htype, hwritten⟩ :=
    exists_period_of_fresh (fresh_new _ rfl) rfl hlast hserved
  obtain ⟨-, -, s, hs, hsettles⟩ := scenes_reset hperiod hr hn henabled htype
  exact ⟨e', r, n, s, hperiod, hr, hn, henabled, hs, hsettles, hwritten⟩

end Engine

end SignalGraph
