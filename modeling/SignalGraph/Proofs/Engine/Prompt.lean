import SignalGraph.Proofs.Engine.Chronicle
import SignalGraph.Proofs.Engine.Coherence
import SignalGraph.Proofs.Engine.Settling
import SignalGraph.Proofs.Node.Arming
import SignalGraph.Proofs.Timer.Due

/-!
# Timers that are armed for no time

A node whose timers have a configured length of zero arms them for the very moment at which it is
evaluated. `World.Prompts` says which timers can have become due in this way from one world to
another. A fire makes its node arm none of them, and the pass after it reaches only nodes to which
links lead: whatever a fire makes due at once lies below its node (`Engine.prompts_handle_timer`).
-/

namespace SignalGraph

/-! ### What is due at once -/

namespace World

variable {H : Type} {P P' : Fire → Prop} {w w' w'' : World H}

/-- From `w` to `w'`, time stands still, and at most timers with these addresses become due. -/
structure Prompts (P : Fire → Prop) (w w' : World H) : Prop where
  elapsed_eq : w'.timeline.elapsed = w.timeline.elapsed
  exists_due_le : ∃ added : Multiset Fire, (∀ fire ∈ added, P fire) ∧
    w'.timeline.due ≤ w.timeline.due + added

namespace Prompts

/-- Timers that go make none due. -/
theorem of_due_le (helapsed : w'.timeline.elapsed = w.timeline.elapsed)
    (hle : w'.timeline.due ≤ w.timeline.due) : Prompts P w w' where
  elapsed_eq := helapsed
  exists_due_le := by
    refine ⟨0, fun fire hfire => ?_, ?_⟩
    · exact absurd hfire (Multiset.notMem_zero fire)
    · rwa [add_zero]

theorem of_timeline_eq (h : w'.timeline = w.timeline) : Prompts P w w' :=
  of_due_le (congrArg _ h) (le_of_eq (congrArg _ h))

theorem refl (w : World H) : Prompts P w w :=
  of_timeline_eq rfl

theorem trans (h : Prompts P w w') (h' : Prompts P w' w'') : Prompts P w w'' where
  elapsed_eq := h'.elapsed_eq.trans h.elapsed_eq
  exists_due_le := by
    obtain ⟨added, hadded, hle⟩ := h.exists_due_le
    obtain ⟨added', hadded', hle'⟩ := h'.exists_due_le
    refine ⟨added + added', fun fire hfire => ?_, ?_⟩
    · exact (Multiset.mem_add.1 hfire).elim (hadded fire) (hadded' fire)
    · calc w''.timeline.due ≤ w'.timeline.due + added' := hle'
        _ ≤ w.timeline.due + added + added' := add_le_add_left hle _
        _ = w.timeline.due + (added + added') := add_assoc _ _ _

/-- A wider property allows more. -/
theorem mono (hP : ∀ fire, P fire → P' fire) (h : Prompts P w w') : Prompts P' w w' where
  elapsed_eq := h.elapsed_eq
  exists_due_le := by
    obtain ⟨added, hadded, hle⟩ := h.exists_due_le
    exact ⟨added, fun fire hfire => hP fire (hadded fire hfire), hle⟩

theorem quiet (h : w.Quiet w') : Prompts P w w' :=
  of_timeline_eq h.timeline_eq

theorem cancelTimer (w : World H) (timer : ArmedTimer) : Prompts P w (w.cancelTimer timer) := by
  unfold World.cancelTimer
  split
  · next ticket _ =>
    have htimeline := timeline_withTimeline w (w.timeline.cancel ticket)
    refine of_due_le ?_ ?_
    · rw [htimeline]
      rfl
    · rw [htimeline]
      exact Timeline.due_cancel_le _ _
  · exact refl w

theorem disarm (w : World H) (timers : ArmedTimers) (key : TimerKey) :
    Prompts P w (w.disarm timers key).2 := by
  unfold World.disarm
  split
  · exact cancelTimer w _
  · exact refl w

/-- A timer is due at once if it is scheduled without a delay. -/
theorem schedule (w : World H) (delay : Nat) (fire : Fire) (hP : delay = 0 → P fire) :
    Prompts P w (w.schedule delay fire).2 := by
  have hscheduled : Prompts P w (w.withTimeline (w.timeline.schedule delay fire).1) := by
    have htimeline := timeline_withTimeline w (w.timeline.schedule delay fire).1
    have helapsed := congrArg Timeline.elapsed htimeline
    have hdue := congrArg Timeline.due htimeline
    rw [Timeline.due_schedule] at hdue
    split at hdue
    · next hdelay =>
      refine ⟨helapsed, {fire}, fun other hother => ?_, ?_⟩
      · rw [Multiset.mem_singleton.1 hother]
        exact hP hdelay
      · rw [hdue, add_comm, Multiset.singleton_add]
    · exact of_due_le helapsed (le_of_eq hdue)
  unfold World.schedule
  split
  · exact refl w
  · exact hscheduled

/-- An armed timer prompts a fire of its node at most, and only without a delay. -/
theorem arm (w : World H) (generation : Nat) (graph node : String) (timers : ArmedTimers)
    (key : TimerKey) (delay : Nat)
    (hP : delay = 0 → ∀ fire : Fire, fire.graph = graph → fire.node = node → P fire) :
    Prompts P w (w.arm generation graph node timers key delay).2 := by
  have hcounted : ∀ w : World H, Prompts P w { w with nextToken := w.nextToken + 1 } :=
    fun w => of_timeline_eq rfl
  refine (disarm w timers key).trans ((hcounted _).trans (schedule _ delay _ fun hdelay => ?_))
  exact hP hdelay _ rfl rfl

variable [Host H]

/-- A command prompts what arming without a delay allows. -/
theorem carryOut (ctx : LoadContext) (graph node : String) (timers : ArmedTimers) (w : World H)
    {command : Command} (hP : ∀ key, command = .arm key 0 →
      ∀ fire : Fire, fire.graph = graph → fire.node = node → P fire) :
    Prompts P w (World.carryOut ctx graph node (timers, w) command).2 := by
  cases command with
  | arm key delay => exact arm w _ _ _ _ _ _ fun hdelay => hP key (hdelay ▸ rfl)
  | cancel key => exact disarm w _ _
  | write signal value ack => exact quiet (.afterCall _ _)
  | trigger scene fallback payload ack pulse =>
    have houtcome := w.trigger_outcome timers ctx graph node scene fallback payload ack pulse
    generalize World.carryOut ctx graph node (timers, w) _ = o at houtcome ⊢
    cases houtcome with
    | unresolved htarget => exact quiet (.of_sceneTarget htarget)
    | @written signal w' htarget =>
      exact quiet (.write_of_sceneTarget htarget signal payload ack)
    | @armed signal w' htarget hpulse =>
      -- the reset is armed with a delay that is not zero
      have hwritten : Prompts P w (w'.write signal payload ack) :=
        quiet (.write_of_sceneTarget htarget signal payload ack)
      exact hwritten.trans (arm _ _ _ _ _ _ _ fun hzero => absurd hzero hpulse)

theorem commands (ctx : LoadContext) (graph node : String) (timers : ArmedTimers) (w : World H)
    {commands : List Command} (hP : ∀ key, .arm key 0 ∈ commands →
      ∀ fire : Fire, fire.graph = graph → fire.node = node → P fire) :
    Prompts P w (commands.foldl (World.carryOut ctx graph node) (timers, w)).2 := by
  induction commands generalizing timers w with
  | nil => exact refl w
  | cons command rest ih =>
    have hfirst : Prompts P w (World.carryOut ctx graph node (timers, w) command).2 :=
      carryOut ctx graph node timers w fun key hkey => hP key (hkey ▸ List.mem_cons_self)
    exact hfirst.trans (ih _ _ fun key hkey => hP key (List.mem_cons_of_mem _ hkey))

end Prompts

/-- The next tick is never due at once. -/
theorem untilTick_pos (w : World H) (settings : Settings) : 0 < (w.reading settings).untilTick := by
  unfold reading Moment.untilNextMinute
  dsimp only
  omega

end World

/-! ### Below a node -/

namespace Graph

/-- The fire addresses a node to which links lead from node `i` and whose timers have length
zero. -/
def Below (g : Graph) (i : Nat) (fire : Fire) : Prop :=
  fire.graph = g.id ∧ ∃ j n, Relation.TransGen g.Feeds i j ∧ g.nodes[j]? = some n ∧
    fire.node = n.id ∧ n.enabled = true ∧ n.behavior.length? = some 0

/-- Nodes that change stay where they are, with the same lengths. -/
theorem Below.of_along {g g' : Graph} {i : Nat} {fire : Fire} (h : g'.Below i fire)
    (halong : g.Along Node.Step g') : g.Below i fire := by
  obtain ⟨hgraph, j, n', hreach, hn', hnode, henabled, hlength⟩ := h
  obtain ⟨n, hn, -⟩ := halong.exists_origin hn'
  have hplan := halong.plan_eq hn hn'
  have hparameters : n'.behavior.parameters = n.behavior.parameters :=
    congrArg Node.Plan.parameters hplan
  refine ⟨hgraph.trans halong.id_eq, j, n, feeds_congr halong.links_eq ▸ hreach, hn, ?_, ?_, ?_⟩
  · rw [hnode]
    exact congrArg Node.Plan.id hplan
  · rw [← henabled]
    exact (congrArg Node.Plan.enabled hplan).symm
  · rw [← hlength, ← Behavior.length?_parameters, ← hparameters, Behavior.length?_parameters]

end Graph

variable {H : Type} [Host H] {ctx : LoadContext}

/-! ### Evaluations and passes -/

namespace Stage

variable {s : Stage H} {P : Fire → Prop} {i : Nat} {o : Stage H × List PortRef}

/-- What a reaction makes due at once, its node has a length of zero for. -/
theorem prompts_react {n m : Node} {v : View} {r : Reaction Behavior} {settings : Settings}
    (hreact : n.behavior.react v = .ok r) (hv : v.reading = s.world.reading settings)
    (hP : n.behavior.length? = some 0 →
      (∀ key, v.trigger = .timer key → n.behavior.owns key = false) →
      ∀ fire : Fire, fire.graph = s.graph.id → fire.node = m.id → P fire) :
    World.Prompts P s.world (s.react ctx i m r).world := by
  refine World.Prompts.commands ctx s.graph.id m.id m.timers s.world fun key hkey fire => ?_
  have htick : 0 < v.reading.untilTick := by
    rw [hv]
    exact s.world.untilTick_pos settings
  obtain ⟨hlength, hforeign⟩ := (Behavior.issues_of_react hreact hkey).length?_eq_zero htick
  exact hP hlength hforeign fire

/-- When a timer of a node fires, the node makes nothing due at once. -/
theorem EvaluateOutcome.prompts {key : TimerKey} (h : s.EvaluateOutcome ctx i (.timer key) o)
    (howns : ∀ n, s.graph.nodes[i]? = some n → n.behavior.owns key = true) :
    World.Prompts P s.world o.1.world := by
  cases h with
  | missing | failed => exact .refl _
  | @reacted n r hn hreact =>
    refine prompts_react hreact rfl fun _ hforeign => ?_
    cases (howns n hn).symm.trans (hforeign key rfl)

/-- A delivery below a node prompts fires below it. -/
theorem DeliverOutcome.prompts {value : Value} {target : PortRef}
    (h : s.DeliverOutcome ctx value target o)
    (hreach : Relation.TransGen s.graph.Feeds i target.node) :
    World.Prompts (s.graph.Below i) s.world o.1.world := by
  cases h with
  | missing | unchanged | stored | failed => exact .refl _
  | @reacted n r hn _ henabled hreact =>
    refine prompts_react hreact rfl fun hlength _ fire hgraph hnode => ?_
    exact ⟨hgraph, target.node, n, hreach, hn, hnode, henabled, hlength⟩

end Stage

namespace Frontier

variable {f f' : Frontier} {g : Graph} {i : Nat} {value : Value} {target : PortRef}

/-- All that is left to follow starts at node `i` or at nodes to which links lead from there. -/
structure Downstream (g : Graph) (i : Nat) (f : Frontier) : Prop where
  targets : ∀ p ∈ f.targets, Relation.TransGen g.Feeds i p.node
  waiting : ∀ p ∈ f.waiting, Relation.ReflTransGen g.Feeds i p.node

/-- What is due downstream of a node leads strictly below it. -/
theorem Due.downstream (hdue : f.Due g value target f') (h : f.Downstream g i) :
    Relation.TransGen g.Feeds i target.node ∧ f'.Downstream g i := by
  cases hdue with
  | @going target targets htargets =>
    have hall := htargets ▸ h.targets
    exact ⟨hall target List.mem_cons_self, fun p hp => hall p (List.mem_cons_of_mem _ hp),
      h.waiting⟩
  | @turn source target skipped f' hnone hwaiting hskipped htargets =>
    have hsource : Relation.ReflTransGen g.Feeds i source.node := by
      refine h.waiting source ?_
      rw [hwaiting]
      exact List.mem_append_right _ List.mem_cons_self
    have hreach : ∀ p ∈ g.targets source, Relation.TransGen g.Feeds i p.node := fun p hp =>
      .tail' hsource ⟨_, Graph.mem_targets.1 hp, rfl, rfl⟩
    rw [htargets] at hreach
    refine ⟨hreach target List.mem_cons_self, fun p hp => hreach p (List.mem_cons_of_mem _ hp),
      fun p hp => h.waiting p ?_⟩
    rw [hwaiting]
    exact List.mem_append_right _ (List.mem_cons_of_mem _ hp)

/-- Outputs downstream of a node add links downstream of it. -/
theorem Downstream.enqueue (h : f.Downstream g i) {changed : List PortRef}
    (hchanged : ∀ p ∈ changed, Relation.ReflTransGen g.Feeds i p.node) :
    (f.enqueue changed).Downstream g i := by
  refine ⟨h.targets, fun p hp => ?_⟩
  rw [waiting_enqueue] at hp
  exact (List.mem_append.1 hp).elim (h.waiting p) (hchanged p)

end Frontier

namespace Runner

variable {r : Runner} {i : Nat} {P : Fire → Prop}

/-- A pass that starts at node `i` makes nothing due at once but what lies below. -/
theorem prompts_pass (ctx : LoadContext) (r : Runner) (s : Stage H) {changed : List PortRef}
    (hchanged : ∀ p ∈ changed, p.node = i) :
    World.Prompts (s.graph.Below i) s.world (r.pass ctx s changed).2 := by
  have hstep : Stage.StepKeeps ctx fun f (t : Stage H) => f.Downstream s.graph i ∧
      s.graph.Along Node.Work t.graph ∧ World.Prompts (s.graph.Below i) s.world t.world := by
    rintro f t value target f' hdue ⟨hdownstream, halong, hprompts⟩
    have houtcome := t.deliver_outcome ctx value target
    have hfeeds := Graph.feeds_congr halong.links_eq
    -- the links are those at the start, so what is due next lies downstream as well
    have hdownstream' : f.Downstream t.graph i :=
      ⟨hfeeds ▸ hdownstream.targets, hfeeds ▸ hdownstream.waiting⟩
    obtain ⟨hreach, hnext⟩ := hdue.downstream hdownstream'
    have hdelivered := (houtcome.prompts hreach).mono fun fire hfire => hfire.of_along halong.step
    rw [hfeeds] at hreach
    refine ⟨Frontier.Downstream.enqueue ⟨hfeeds ▸ hnext.targets, hfeeds ▸ hnext.waiting⟩ ?_,
      halong.trans houtcome.along, hprompts.trans hdelivered⟩
    intro p hp
    rw [houtcome.outputs.2 p hp]
    exact hreach.to_reflTransGen
  have hstart : (Frontier.ofSources changed).Downstream s.graph i := by
    refine ⟨(fun p hp => nomatch hp), fun p hp => ?_⟩
    have hp' : p ∈ changed := by simpa [Frontier.waiting, Frontier.ofSources] using hp
    exact hchanged p hp' ▸ .refl
  obtain ⟨-, ⟨-, -, hprompts⟩, -⟩ := pass_induct ctx hstep r changed ⟨hstart, .refl _, .refl _⟩
  exact hprompts

/-- A fire makes nothing due at once but what lies below its node. -/
theorem TimerOutcome.prompts {w : World H} {fire : Fire} {o : Runner × World H}
    (h : r.TimerOutcome ctx w fire o)
    (hkeyed : ∀ (i : Nat) n, r.graph.nodes[i]? = some n → n.Keyed)
    (hP : ∀ i, r.graph.indexOf? fire.node = some i → ∀ x, r.graph.Below i x → P x) :
    World.Prompts P w o.2 := by
  cases h with
  | refused | dropped => exact .refl _
  | @evaluated i n timers hindex hn htimers henabled =>
    obtain ⟨timer, hkey, -, hperm⟩ := ArmedTimers.exists_of_takeFired? htimers
    have howns : n.behavior.owns fire.key = true :=
      hkey ▸ hkeyed i n hn timer (hperm.symm.subset List.mem_cons_self)
    have hreleased : r.graph.Along Node.Step (r.release i n timers).graph :=
      (along_release hn htimers).step
    let released : Stage H := ⟨(r.release i n timers).graph, w⟩
    have hevaluated := released.evaluate_outcome ctx i (.timer fire.key)
    have hnode : ∀ m, released.graph.nodes[i]? = some m → m = { n with timers := timers } :=
      fun m hm => Option.some.inj (hm.symm.trans (Graph.getElem?_replace_self hn))
    have halong := hevaluated.along fun m hm => hnode m hm ▸ henabled
    have hfirst : World.Prompts P w (released.evaluate ctx i (.timer fire.key)).1.world :=
      hevaluated.prompts fun m hm => hnode m hm ▸ howns
    have hpass := prompts_pass ctx (r.release i n timers)
      (released.evaluate ctx i (.timer fire.key)).1 hevaluated.outputs.2
    -- what lies below the node in the graph after the evaluation lies below it in the graph before
    refine hfirst.trans (hpass.mono fun x hx => hP i hindex x ?_)
    exact (hx.of_along halong.step).of_along hreleased

end Runner

/-! ### The engine -/

namespace Engine

variable {e e' : Engine H}

/-- A fire makes nothing due at once but what lies below its node in its running graph. -/
theorem prompts_handle_timer {P : Fire → Prop} {fire : Fire}
    (hkeyed : e.AllRunners fun _ r => ∀ (i : Nat) n, r.graph.nodes[i]? = some n → n.Keyed)
    (hP : ∀ (k : Nat) r i, e.runners[k]? = some r → r.graph.id = fire.graph →
      r.graph.indexOf? fire.node = some i → ∀ x, r.graph.Below i x → P x) :
    World.Prompts P e.world (e.handle (.timer fire)).world := by
  unfold handle
  dsimp only
  split
  · exact .refl _
  · split
    · next k hindex =>
      obtain ⟨hk, hid, -⟩ := Array.findIdx?_eq_some_iff_getElem.1 hindex
      have hr : e.runners[k]? = some e.runners[k] := Array.getElem?_eq_getElem hk
      unfold updateRunner
      rw [hr]
      exact (Runner.onTimer_outcome e.context _ e.world fire).prompts (hkeyed k _ hr)
        fun i hi => hP k _ i hr (beq_iff_eq.1 hid) hi
    · exact .refl _

/-! ### Keys -/

omit [Host H] in
/-- What every episode keeps holds of the nodes that have become what they are by episodes. -/
theorem Lives.forall_nodes {P : Node → Prop}
    (hP : ∀ {n n' : Node} {ep : Episode}, n.Undergoes ep n' → P n → P n') {entries : List Entry}
    (h : e.Lives entries e')
    (he : e.AllRunners fun _ r => ∀ (i : Nat) n, r.graph.nodes[i]? = some n → P n) :
    e'.AllRunners fun _ r => ∀ (i : Nat) n, r.graph.nodes[i]? = some n → P n := by
  intro k r' hr' i n' hn'
  obtain ⟨r, hr, hgraph⟩ := h k r' hr'
  obtain ⟨n, hn, hlives⟩ := hgraph.exists_origin hn'
  have hstart := he k r hr i n hn
  clear hn' hn
  generalize episodesOf i (notesOf k entries) = eps at hlives
  induction hlives with
  | nil => exact hstart
  | snoc _ hundergoes ih => exact hP hundergoes ih

/-- Armed timers stand under the keys of their nodes. -/
theorem Reachable.keyed (h : Reachable e) :
    e.AllRunners fun _ r => ∀ (i : Nat) n, r.graph.nodes[i]? = some n → n.Keyed := by
  induction h with
  | fresh h => exact fun k r hr => by simp [h.runners] at hr
  | @act e a _ ih =>
    by_cases ha : ∃ c, a = .install c
    · obtain ⟨c, rfl⟩ := ha
      refine (Lives.install e c).forall_nodes (fun hundergoes => hundergoes.keyed) ?_
      intro k r hr i n hn timer htimer
      rw [((fresh_assemble e c) k r hr |>.nodes i n hn).timers] at htimer
      cases htimer
    · have hlives := Lives.act e fun c hc => ha ⟨c, hc⟩
      exact hlives.forall_nodes (fun hundergoes => hundergoes.keyed) ih

end Engine

end SignalGraph
