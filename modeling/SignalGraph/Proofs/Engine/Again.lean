import SignalGraph.Host.Memory
import SignalGraph.Proofs.Engine.Computing
import SignalGraph.Proofs.Engine.Timely
import SignalGraph.Proofs.Node.Again

/-!
# Evaluations that are repeated

A node that has been evaluated on its inputs and is evaluated on them once more at the same time, be
it at once or later, stays as it was up to the tokens of its timers, changes no output and asks
nothing of the host (`Stage.evaluate_again`). So priming does no harm to the nodes that the first
values of their signals have reached before.
-/

namespace SignalGraph

/-! ### At the same time -/

/-- Whether timers wait at all. -/
def TimerService.waits : TimerService → Bool
  | .shared | .separate _ => true
  | .inert => false

namespace World

variable {H : Type} {w w' w'' : World H}

/-- Both worlds show the same times, and timers wait in both of them or in neither. -/
structure Simultaneous (w w' : World H) : Prop where
  sameTimes : w'.SameTimes w
  waits_eq : w'.service.waits = w.service.waits

theorem Simultaneous.refl (w : World H) : w.Simultaneous w :=
  ⟨.refl w, rfl⟩

theorem waits_withTimeline (w : World H) (t : Timeline Fire) :
    (w.withTimeline t).service.waits = w.service.waits := by
  unfold withTimeline
  split
  · next hservice => rw [hservice]; rfl
  · rfl
  · rfl

/-- While timers are scheduled and cancelled and the host is called, everything is at one time. -/
theorem ledger_simultaneous (w₀ : World H) :
    Ledger fun w (_ : List Arming) => w₀.Simultaneous w where
  perm _ h := h
  quiet hw h := ⟨hw.sameTimes.trans h.sameTimes, hw.service_eq ▸ h.waits_eq⟩
  cancel {w l} fire timer h := by
    refine ⟨(ledger_sameTimes w₀).cancel (l := l) fire timer h.sameTimes, ?_⟩
    unfold cancelTimer
    split
    · exact (waits_withTimeline _ _).trans h.waits_eq
    · exact h.waits_eq
  schedule {w l} fire delay htoken h := by
    refine ⟨(ledger_sameTimes w₀).schedule (l := l) fire delay htoken h.sameTimes, ?_⟩
    unfold schedule
    split
    · exact h.waits_eq
    · exact (waits_withTimeline _ _).trans h.waits_eq

/-- A node sees the same of the time. -/
theorem Simultaneous.reading_eq (h : w.Simultaneous w') (settings : Settings) :
    w'.reading settings = w.reading settings := by
  have hclock := h.sameTimes.clock
  simp only [reading, Timeline.localNow, Timeline.absoluteNow, hclock.start_eq, hclock.elapsed_eq,
    hclock.localShift_eq]

/-- When a timer is due that is scheduled now; `none` if timers never fire. -/
def due? (w : World H) (delay : Nat) : Option Nat :=
  if w.service.waits then some (w.timeline.elapsed + delay) else none

theorem Simultaneous.due?_eq (h : w.Simultaneous w') (delay : Nat) :
    w'.due? delay = w.due? delay := by
  rw [due?, due?, h.waits_eq, h.sameTimes.timeline.elapsed_eq]

theorem due_schedule (w : World H) (delay : Nat) (fire : Fire) :
    (w.schedule delay fire).1.map Ticket.due = w.due? delay := by
  unfold schedule due?
  cases w.service <;> rfl

/-- Arming takes a timer under the same key away and adds one that is due when the time has come. -/
theorem arm_fst_due (w : World H) (generation : Nat) (graph node : String) (timers : ArmedTimers)
    (key : TimerKey) (delay : Nat) : ∃ timer : ArmedTimer, timer.key = key ∧
      timer.ticket.map Ticket.due = w.due? delay ∧
        (w.arm generation graph node timers key delay).1 = timers.remove key ++ [timer] := by
  have hdisarmed : w.Simultaneous (w.disarm timers key).2 :=
    @Ledger.disarm _ _ generation graph node timers w [] (ledger_simultaneous w) key (.refl w)
  unfold arm
  rw [← disarm_fst w timers key]
  refine ⟨_, rfl, ?_, rfl⟩
  rw [due_schedule]
  exact hdisarmed.due?_eq delay

/-- Nothing but timers makes a difference between two worlds. -/
structure Undisturbed (w w' : World H) : Prop where
  host_eq : w'.host = w.host
  queue_eq : w'.queue = w.queue
  registered_eq : w'.registered = w.registered

namespace Undisturbed

theorem refl (w : World H) : w.Undisturbed w :=
  ⟨rfl, rfl, rfl⟩

theorem trans (h : w.Undisturbed w') (h' : w'.Undisturbed w'') : w.Undisturbed w'' :=
  ⟨h'.host_eq.trans h.host_eq, h'.queue_eq.trans h.queue_eq,
    h'.registered_eq.trans h.registered_eq⟩

theorem withTimeline (w : World H) (t : Timeline Fire) : w.Undisturbed (w.withTimeline t) := by
  unfold World.withTimeline
  split <;> exact ⟨rfl, rfl, rfl⟩

theorem disarm (w : World H) (timers : ArmedTimers) (key : TimerKey) :
    w.Undisturbed (w.disarm timers key).2 := by
  unfold World.disarm cancelTimer
  split
  · dsimp only
    split
    · exact withTimeline w _
    · exact refl w
  · exact refl w

theorem arm (w : World H) (generation : Nat) (graph node : String) (timers : ArmedTimers)
    (key : TimerKey) (delay : Nat) :
    w.Undisturbed (w.arm generation graph node timers key delay).2 := by
  have hcounted (w : World H) : w.Undisturbed { w with nextToken := w.nextToken + 1 } :=
    ⟨rfl, rfl, rfl⟩
  unfold World.arm schedule
  refine (disarm w timers key).trans ((hcounted _).trans ?_)
  dsimp only
  split
  · exact refl _
  · exact withTimeline _ _

end Undisturbed

end World

/-! ### The node -/

/-- Under which key a timer waits and when it is due. -/
def ArmedTimer.appointment (timer : ArmedTimer) : TimerKey × Option Nat :=
  (timer.key, timer.ticket.map Ticket.due)

/-- A node has stayed as it was, but for the signs of zeros at its outputs and the tokens of its
timers. -/
structure Node.Stays (n n' : Node) : Prop where
  id_eq : n'.id = n.id
  enabled_eq : n'.enabled = n.enabled
  behavior_eq : n'.behavior = n.behavior
  inputs_eq : n'.ports.inputs = n.ports.inputs
  outputs_same : List.Forall₂ (fun a b => Value.same a b = true) n.ports.outputs n'.ports.outputs
  timers_eq : n'.timers.map ArmedTimer.appointment = n.timers.map ArmedTimer.appointment

theorem Node.Stays.refl (n : Node) : n.Stays n :=
  ⟨rfl, rfl, rfl, rfl, List.forall₂_same.2 fun a _ => a.same_refl, rfl⟩

namespace ArmedTimers

variable {timers : ArmedTimers} {key : TimerKey}

theorem remove_of_notMem (h : key ∉ timers.map ArmedTimer.key) : timers.remove key = timers := by
  refine List.eraseP_of_forall_not fun timer htimer hkey => h ?_
  exact List.mem_map.2 ⟨timer, htimer, beq_iff_eq.1 hkey⟩

/-- The timer that has been added last under a free key is the one that is removed. -/
theorem remove_append_of_notMem (h : key ∉ timers.map ArmedTimer.key) {timer : ArmedTimer}
    (htimer : timer.key = key) : remove (timers ++ [timer]) key = timers := by
  rw [remove, List.eraseP_append_right, List.eraseP_cons_of_pos (by simpa using htimer),
    List.append_nil]
  exact fun timer' hmem hkey => h (List.mem_map.2 ⟨timer', hmem, beq_iff_eq.1 hkey⟩)

end ArmedTimers

namespace World

variable {H : Type} [Host H] {w w' : World H}

/-- A command that is repeated at the same time leaves the timers due when they were, and asks
nothing of the host. -/
theorem obey_again (ctx : LoadContext) (graph graph' node : String) {timers : ArmedTimers}
    (hkeys : timers.UniqueKeys) {first again : List Command} (h : Command.Repeat first again)
    (hw : w.Simultaneous w') {left : ArmedTimers}
    (hleft : (first.foldl (carryOut ctx graph node) (timers, w)).1 = left) :
    (again.foldl (carryOut ctx graph' node) (left, w')).1.map ArmedTimer.appointment =
        left.map ArmedTimer.appointment ∧
      w'.Undisturbed (again.foldl (carryOut ctx graph' node) (left, w')).2 := by
  cases h with
  | nil => exact ⟨rfl, .refl w'⟩
  | arm key delay =>
    obtain ⟨timer, hkey, hdue, harmed⟩ := w.arm_fst_due ctx.generation graph node timers key delay
    have hfree := hkeys.key_notMem_remove key
    obtain rfl : timers.remove key ++ [timer] = left := harmed.symm.trans hleft
    obtain ⟨timer', hkey', hdue', harmed'⟩ := w'.arm_fst_due ctx.generation graph' node
      (timers.remove key ++ [timer]) key delay
    rw [ArmedTimers.remove_append_of_notMem hfree hkey] at harmed'
    refine ⟨?_, .arm w' ctx.generation graph' node _ key delay⟩
    show (w'.arm ctx.generation graph' node _ key delay).1.map _ = _
    rw [harmed', List.map_append, List.map_append, List.map_singleton, List.map_singleton,
      ArmedTimer.appointment, ArmedTimer.appointment, hkey, hkey', hdue, hdue', hw.due?_eq]
  | cancel key =>
    obtain rfl : timers.remove key = left := (disarm_fst w timers key).symm.trans hleft
    refine ⟨?_, .disarm w' _ key⟩
    show (w'.disarm (timers.remove key) key).1.map _ = _
    rw [disarm_fst, ArmedTimers.remove_of_notMem (hkeys.key_notMem_remove key)]

end World

/-! ### The evaluation -/

namespace Stage

variable {H : Type} [Host H] {ctx : LoadContext} {s s' : Stage H} {i : Nat} {n n' : Node}

/-- Outputs that are the same have not changed. -/
theorem changed_eq_nil {r : Reaction Behavior}
    (h : List.Forall₂ (fun a b => Value.same a b = true) n.ports.outputs r.outputs) :
    changed i n r = [] := by
  rw [changed, List.map_eq_nil_iff, Ports.changedSince, List.filter_eq_nil_iff]
  intro port hport
  rw [List.mem_range] at hport
  rcases forall₂_getElem? h port with ⟨hnone, -⟩ | ⟨a, b, ha, hb, hsame⟩
  · exact absurd hport (by simpa using hnone)
  · simp [Ports.outputAt, List.getD_eq_getElem?_getD, ha, hb, hsame]

/-- An evaluation of node `i`, which is `n`, on its inputs makes no difference. It fails if the
evaluation of `n₀` that has left `n` has failed. -/
structure Idle (ctx : LoadContext) (s : Stage H) (i : Nat) (n₀ n : Node) : Prop where
  fails_iff : ∀ e, n.behavior.react (n.view .inputs (s.world.reading ctx.settings)) = .error e ↔
    n₀.behavior.react (n₀.view .inputs (s.world.reading ctx.settings)) = .error e
  /-- The node stays, and so does everything else of the graph. -/
  stays : ∃ n', n.Stays n' ∧ (s.evaluate ctx i .inputs).1.graph = s.graph.replace i n'
  changed_eq : (s.evaluate ctx i .inputs).2 = []
  undisturbed : s.world.Undisturbed (s.evaluate ctx i .inputs).1.world
  /-- If the node is primed, no link is followed. -/
  primed : ∀ r : Runner, r.graph = s.graph →
    Runner.primeNode ctx (r, s.world) i = (r, s.world) ∨
      Runner.primeNode ctx (r, s.world) i =
        ({ r with graph := (s.evaluate ctx i .inputs).1.graph, lastSteps := 0 },
          (s.evaluate ctx i .inputs).1.world)

/-- An enabled node is primed by an evaluation, and if that changes no output, no link is
followed. -/
theorem primeNode_of_changed_eq_nil (hchanged : (s.evaluate ctx i .inputs).2 = []) {r : Runner}
    (hr : r.graph = s.graph) : Runner.primeNode ctx (r, s.world) i = (r, s.world) ∨
      Runner.primeNode ctx (r, s.world) i =
        ({ r with graph := (s.evaluate ctx i .inputs).1.graph, lastSteps := 0 },
          (s.evaluate ctx i .inputs).1.world) := by
  have hstage : (⟨r.graph, s.world⟩ : Stage H) = s := by rw [hr]
  have houtcome := Runner.primeNode_outcome ctx r s.world i
  generalize Runner.primeNode ctx (r, s.world) i = o at houtcome ⊢
  cases houtcome with
  | skipped => exact .inl rfl
  | evaluated =>
    right
    rw [Runner.evaluate, hstage]
    show Runner.pass ctx { r with graph := (s.evaluate ctx i .inputs).1.graph } _
      (s.evaluate ctx i .inputs).2 = _
    rw [hchanged]
    exact Runner.pass_nil ctx { r with graph := (s.evaluate ctx i .inputs).1.graph } _

/-- What an evaluation makes of its node, if it does not fail. -/
theorem idle_of_react {r : Reaction Behavior} (hkeys : n.timers.UniqueKeys)
    (hreact : n.behavior.react (n.view .inputs (s.world.reading ctx.settings)) = .ok r)
    (hs' : s'.graph.nodes[i]? = some (n.after r (s.obey ctx n r).1))
    (htime : s.world.Simultaneous s'.world) :
    s'.Idle ctx i n (n.after r (s.obey ctx n r).1) := by
  have hreading := htime.reading_eq ctx.settings
  -- the second reaction sees the timers that the first one has left
  have hleft : n.timers.Left r.commands (s.obey ctx n r).1 :=
    (World.obeysAll_commands s.world n.timers ctx s.graph.id n.id r.commands).left
  obtain ⟨r', hreact', hrepeated⟩ := Behavior.react_again rfl hreact hleft
  have hagain : (n.after r (s.obey ctx n r).1).behavior.react
      ((n.after r (s.obey ctx n r).1).view .inputs (s'.world.reading ctx.settings)) = .ok r' := by
    rw [hreading]
    exact hreact'
  obtain ⟨htimers, hworld⟩ := World.obey_again ctx s.graph.id s'.graph.id n.id hkeys
    hrepeated.commands htime rfl
  have hevaluate : s'.evaluate ctx i .inputs =
      (s'.react ctx i (n.after r (s.obey ctx n r).1) r', []) := by
    rw [evaluate_eq ctx s' i .inputs hs', hagain]
    exact congrArg (Prod.mk _) (changed_eq_nil hrepeated.outputs_same)
  constructor
  case fails_iff =>
    intro e
    rw [hagain, hreading, hreact]
    exact ⟨nofun, nofun⟩
  case stays =>
    rw [hevaluate]
    refine ⟨(n.after r (s.obey ctx n r).1).after r' (s'.obey ctx _ r').1, ?_, rfl⟩
    exact ⟨rfl, rfl, hrepeated.state_eq, rfl, hrepeated.outputs_same, htimers⟩
  case changed_eq => rw [hevaluate]
  case undisturbed =>
    rw [hevaluate]
    exact hworld
  case primed => exact fun r hr => primeNode_of_changed_eq_nil (by rw [hevaluate]) hr

theorem idle_of_error {e : EvalError}
    (hreact : n.behavior.react (n.view .inputs (s.world.reading ctx.settings)) = .error e)
    (hs' : s'.graph.nodes[i]? = some n) (htime : s.world.Simultaneous s'.world) :
    s'.Idle ctx i n n := by
  have hevaluate : s'.evaluate ctx i .inputs = (s', []) := by
    rw [evaluate_eq ctx s' i .inputs hs', htime.reading_eq, hreact]
  constructor
  case fails_iff => exact fun _ => .rfl
  case stays =>
    rw [hevaluate]
    exact ⟨n, .refl n, (Graph.replace_self hs').symm⟩
  case changed_eq => rw [hevaluate]
  case undisturbed =>
    rw [hevaluate]
    exact .refl _
  case primed => exact fun r hr => primeNode_of_changed_eq_nil (by rw [hevaluate]) hr

/-- A node that has been evaluated on its inputs is as it was left, and the time is the same: then
evaluating it once more makes no difference. This is so right after the evaluation. No two timers of
a node have one key, which every step keeps (`Node.Step.uniqueKeys`). -/
theorem evaluate_again (ctx : LoadContext) (hn : s.graph.nodes[i]? = some n)
    (hkeys : n.timers.UniqueKeys) :
    s.world.Simultaneous (s.evaluate ctx i .inputs).1.world ∧
    ∃ n', (s.evaluate ctx i .inputs).1.graph.nodes[i]? = some n' ∧
      ∀ s' : Stage H, s'.graph.nodes[i]? = some n' → s.world.Simultaneous s'.world →
        s'.Idle ctx i n n' := by
  have htime : s.world.Simultaneous (s.evaluate ctx i .inputs).1.world :=
    @Ledger.evaluate _ _ ctx [] _ s _ (World.ledger_simultaneous s.world) i .inputs
      (evaluate_outcome ctx s i .inputs) (.refl _)
  refine ⟨htime, ?_⟩
  have hevaluate := evaluate_eq ctx s i .inputs hn
  cases hreact : n.behavior.react (n.view .inputs (s.world.reading ctx.settings)) with
  | error e =>
    rw [hreact] at hevaluate
    rw [hevaluate]
    exact ⟨n, hn, fun s' hs' htime => idle_of_error hreact hs' htime⟩
  | ok r =>
    rw [hreact] at hevaluate
    rw [hevaluate]
    refine ⟨_, Graph.getElem?_replace_self hn, fun s' hs' htime => ?_⟩
    exact idle_of_react hkeys hreact hs' htime

/-- A scene trigger with a reset pulse, whose input has just become true. -/
def calling : Stage MemoryHost :=
  let g := (Graph.build {
    id := "g"
    nodes := [{ id := "a", typeName := "scene"
                params := [("dp", .str "x"), ("pulse_ms", .int 500)] }] }).1
  { graph := { g with nodes := g.nodes.map fun n => n.receive 0 (.bool true) }
    world := { host := default, clock := { start := default } } }

/-- The first evaluation writes to the signal and arms a timer, and the second one does neither. -/
theorem evaluate_again_calling :
    (calling.evaluate ⟨1, {}, []⟩ 0 .inputs).1.world.host.written.length = 1 ∧
      ∃ n n', n.timers = [] ∧ n'.timers.length = 1 ∧
        (calling.evaluate ⟨1, {}, []⟩ 0 .inputs).1.Idle ⟨1, {}, []⟩ 0 n n' := by
  have hbefore : (calling.graph.nodes[0]?.any fun n => n.timers.isEmpty) = true := by
    decide +kernel
  have hafter : ((calling.evaluate ⟨1, {}, []⟩ 0 .inputs).1.graph.nodes[0]?.any
      fun n => n.timers.length == 1) = true := by
    decide +kernel
  obtain ⟨n, hn, hnone⟩ := Option.any_eq_true _ _ |>.1 hbefore
  obtain ⟨m, hm, hone⟩ := Option.any_eq_true _ _ |>.1 hafter
  rw [List.isEmpty_iff] at hnone
  have hkeys : n.timers.UniqueKeys := by rw [hnone]; exact List.nodup_nil
  obtain ⟨htime, n', hn', hidle⟩ := evaluate_again ⟨1, {}, []⟩ hn hkeys
  obtain rfl : m = n' := Option.some.inj (hm.symm.trans hn')
  exact ⟨by decide +kernel, n, m, hnone, eq_of_beq hone, hidle _ hn' htime⟩

end Stage

end SignalGraph
