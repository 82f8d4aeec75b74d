import SignalGraph.Proofs.Engine.Becoming
import SignalGraph.Proofs.Engine.Effects

/-!
# What a node writes

The log of the host tells what is written while something happens to a node (`Occurrence.writes`). A
scene trigger writes to the signal that its scene has at that moment
(`World.carryOut_trigger_of_none`, `World.carryOut_trigger_of_some`). The occurrences of a
transcript account for everything that is written in a load or a turn (`Engine.Writes.install`,
`Engine.Writes.turn`).
-/

namespace SignalGraph

/-- A write that a host is asked for, whether it succeeds or not. -/
structure Write where
  signal : String
  value : Value
  ack : Bool

/-- What a call writes. -/
def HostEntry.written? (entry : HostEntry) : Option Write :=
  match entry.call with
  | .write signal value ack _ => some ⟨signal, value, ack⟩
  | _ => none

variable {H : Type} [Host H]

/-- The signal of a scene trigger: what the host knows about the scene comes first, then the scenes
of the configuration, and then the fallback. -/
def SceneTrigger.target? (s : SceneTrigger) (scenes : Dictionary String) (host : H) :
    Option String :=
  match s.scene with
  | none => s.fallback
  | some scene => ((Host.resolve host scene).answer <|> scenes.find? scene) <|> s.fallback

/-- What a scene trigger asks for at an edge. -/
def SceneTrigger.command (s : SceneTrigger) : Command :=
  .trigger s.scene s.fallback s.payload s.ack s.pulse

/-! ### Commands -/

namespace World

omit [Host H] in
/-- From `w` to `w'`, the host is asked for these writes. -/
def Writes (w : World (Logged H)) (writes : List Write) (w' : World (Logged H)) : Prop :=
  ∃ entries, w'.host.log = w.host.log ++ entries ∧ entries.filterMap HostEntry.written? = writes

section Writes

variable {w w' w'' : World (Logged H)} {writes writes' : List Write}

omit [Host H] in
theorem Writes.of_host_eq (h : w'.host = w.host) : w.Writes [] w' :=
  ⟨[], by rw [h, List.append_nil], rfl⟩

omit [Host H] in
theorem Writes.trans (h : w.Writes writes w') (h' : w'.Writes writes' w'') :
    w.Writes (writes ++ writes') w'' := by
  obtain ⟨entries, hlog, rfl⟩ := h
  obtain ⟨entries', hlog', rfl⟩ := h'
  refine ⟨entries ++ entries', ?_, List.filterMap_append⟩
  rw [hlog', hlog, List.append_assoc]

omit [Host H] in
theorem Writes.call {α : Type} (w : World (Logged H)) (reply : Reply H α) (call : HostCall)
    (refused : Bool) : w.Writes (HostEntry.written? ⟨call, refused, reply.reports⟩).toList
      (w.afterCall (w.host.pass reply call refused)) := by
  refine ⟨[⟨call, refused, reply.reports⟩], ?_, ?_⟩
  · rw [afterCall_eq]
    rfl
  · exact filterMap_concat _ [] _

theorem Writes.write (w : World (Logged H)) (signal : String) (value : Value) (ack : Bool) :
    w.Writes [⟨signal, value, ack⟩] (w.write signal value ack) :=
  .call w (Host.write w.host.host signal value ack) (.write signal value ack _) _

theorem Writes.sceneTarget (w : World (Logged H)) (scenes : Dictionary String)
    (scene fallback : Option String) : w.Writes [] (w.sceneTarget scenes scene fallback).2 := by
  cases scene with
  | none => exact .of_host_eq rfl
  | some scene => exact .call w (Host.resolve w.host.host scene) (.resolve scene _) false

end Writes

section Trigger

variable (ctx : LoadContext) (graph node : String) (timers : ArmedTimers) (w : World (Logged H))
  (s : SceneTrigger)

theorem sceneTarget_fst : (w.sceneTarget ctx.scenes s.scene s.fallback).1 =
    s.target? ctx.scenes w.host.host := by
  unfold sceneTarget SceneTrigger.target?
  cases s.scene <;> rfl

/-- If there is no signal for the scene, nothing is written. -/
theorem carryOut_trigger_of_none (h : s.target? ctx.scenes w.host.host = none) :
    (carryOut ctx graph node (timers, w) s.command).1 = timers ∧
      w.Writes [] (carryOut ctx graph node (timers, w) s.command).2 := by
  have hasked := Writes.sceneTarget w ctx.scenes s.scene s.fallback
  have houtcome :=
    w.trigger_outcome timers ctx graph node s.scene s.fallback s.payload s.ack s.pulse
  rw [← sceneTarget_fst] at h
  unfold SceneTrigger.command
  generalize carryOut ctx graph node (timers, w) _ = o at houtcome ⊢
  cases houtcome with
  | unresolved htarget =>
    rw [htarget] at hasked
    exact ⟨rfl, hasked⟩
  | written htarget | armed htarget =>
    rw [htarget] at h
    cases h

/-- The payload is written to the signal of the scene, and unless the pulse is zero, the timer of
this signal is armed anew. -/
theorem carryOut_trigger_of_some {signal : String}
    (h : s.target? ctx.scenes w.host.host = some signal) :
    w.Writes [⟨signal, s.payload, s.ack⟩] (carryOut ctx graph node (timers, w) s.command).2 ∧
      (s.pulse = 0 → (carryOut ctx graph node (timers, w) s.command).1 = timers) ∧
      (0 < s.pulse → ∃ timer : ArmedTimer, timer.key = .pulse signal ∧
        timer.DueAt (w.timeline.elapsed + s.pulse) ∧
        (carryOut ctx graph node (timers, w) s.command).1 =
          timers.remove (.pulse signal) ++ [timer]) := by
  -- looking the target up writes nothing and leaves the timeline alone
  have hasked := Writes.sceneTarget w ctx.scenes s.scene s.fallback
  have houtcome :=
    w.trigger_outcome timers ctx graph node s.scene s.fallback s.payload s.ack s.pulse
  rw [← sceneTarget_fst] at h
  unfold SceneTrigger.command
  generalize carryOut ctx graph node (timers, w) _ = o at houtcome ⊢
  cases houtcome with
  | unresolved htarget =>
    rw [htarget] at h
    cases h
  | @written _ w' htarget hpulse =>
    rw [htarget] at h hasked
    cases h
    have hwritten := hasked.trans (.write w' signal s.payload s.ack)
    exact ⟨hwritten, fun _ => rfl, fun h => by omega⟩
  | @armed _ w' htarget hpulse =>
    rw [htarget] at h hasked
    cases h
    have hwritten := hasked.trans (.write w' signal s.payload s.ack)
    refine ⟨?_, fun h => (hpulse h).elim, fun _ => ?_⟩
    · exact hwritten.trans (.of_host_eq (host_arm _ _ _ _ _ _ _))
    · obtain ⟨timer, hkey, hdue, harmed⟩ := exists_of_arm (w'.write signal s.payload s.ack) timers
        ctx.generation graph node (.pulse signal) s.pulse
      rw [(Quiet.write_of_sceneTarget htarget signal s.payload s.ack).timeline_eq] at hdue
      exact ⟨timer, hkey, hdue, harmed⟩

/-- Commands write something or nothing, and the log only grows. -/
theorem exists_writes_carryOut (command : Command) :
    ∃ writes, w.Writes writes (carryOut ctx graph node (timers, w) command).2 := by
  cases command with
  | arm key delay => exact ⟨[], .of_host_eq (host_arm _ _ _ _ _ _ _)⟩
  | cancel key => exact ⟨[], .of_host_eq (host_disarm _ _ _)⟩
  | write signal value ack => exact ⟨_, .write w signal value ack⟩
  | trigger scene fallback payload ack pulse =>
    let s : SceneTrigger :=
      { scene := scene, fallback := fallback, payload := payload, kind := .rising, pulse := pulse
        resetValue := .null, ack := ack }
    cases htarget : s.target? ctx.scenes w.host.host with
    | none => exact ⟨[], (carryOut_trigger_of_none ctx graph node timers w s htarget).2⟩
    | some signal => exact ⟨_, (carryOut_trigger_of_some ctx graph node timers w s htarget).1⟩

theorem exists_writes_commands (commands : List Command) :
    ∃ writes, w.Writes writes (commands.foldl (carryOut ctx graph node) (timers, w)).2 := by
  induction commands generalizing timers w with
  | nil => exact ⟨[], .of_host_eq rfl⟩
  | cons command rest ih =>
    obtain ⟨writes, hfirst⟩ := exists_writes_carryOut ctx graph node timers w command
    obtain ⟨writes', hrest⟩ := ih (carryOut ctx graph node (timers, w) command).1
      (carryOut ctx graph node (timers, w) command).2
    exact ⟨writes ++ writes', hfirst.trans hrest⟩

end Trigger

end World

/-! ### Occurrences -/

namespace Occurrence

variable (ctx : LoadContext)

/-- The calls to the host while this happens to the node. -/
def calls (o : Occurrence (Logged H)) : List HostEntry :=
  (o.next ctx).world.host.log.drop o.stage.world.host.log.length

/-- What is written while this happens to the node. -/
def writes (o : Occurrence (Logged H)) : List Write :=
  (o.calls ctx).filterMap HostEntry.written?

theorem writes_eq {o : Occurrence (Logged H)} {writes : List Write}
    (h : o.stage.world.Writes writes (o.next ctx).world) : o.writes ctx = writes := by
  obtain ⟨entries, hlog, rfl⟩ := h
  rw [Occurrence.writes, calls, hlog, List.drop_left]

/-- What a reaction makes of the node and the world. -/
theorem of_react {o : Occurrence H} {n m : Node} {r : Reaction Behavior} (hn : o.before? = some n)
    (h : o.evaluates = true) (hm : o.occasion.prepare n = m)
    (hreact : m.behavior.react (m.view o.occasion.trigger (o.stage.world.reading ctx.settings)) =
      .ok r) :
    ∃ graph id, o.after? ctx = some (m.after r
        (r.commands.foldl (World.carryOut ctx graph id) (m.timers, o.stage.world)).1) ∧
      (o.next ctx).world =
        (r.commands.foldl (World.carryOut ctx graph id) (m.timers, o.stage.world)).2 := by
  subst hm
  have hm : o.prepared.graph.nodes[o.node]? = some (o.occasion.prepare n) := by
    rw [prepared_eq hn]
    exact Graph.getElem?_replace_self hn
  have hworld := o.world_prepared
  have hnext : o.next ctx = o.prepared.react ctx o.node (o.occasion.prepare n) r := by
    rw [next, if_pos h, Stage.evaluate_eq ctx _ _ _ hm, hworld, hreact]
  refine ⟨o.prepared.graph.id, (o.occasion.prepare n).id, ?_, ?_⟩
  · rw [after?, hnext, ← hworld]
    exact Graph.getElem?_replace_self hm
  · rw [hnext, ← hworld]
    rfl

/-- The log only grows while something happens to a node, and it tells what is written meanwhile. -/
theorem writes_next (o : Occurrence (Logged H)) :
    o.stage.world.Writes (o.writes ctx) (o.next ctx).world := by
  suffices h : ∃ writes, o.stage.world.Writes writes (o.next ctx).world by
    obtain ⟨writes, hwrites⟩ := h
    rwa [writes_eq ctx hwrites]
  rw [next, ← o.world_prepared]
  split
  · have houtcome := o.prepared.evaluate_outcome ctx o.node o.occasion.trigger
    generalize o.prepared.evaluate ctx o.node o.occasion.trigger = result at houtcome ⊢
    cases houtcome with
    | missing | failed => exact ⟨[], .of_host_eq rfl⟩
    | reacted => exact World.exists_writes_commands ctx _ _ _ _ _
  · exact ⟨[], .of_host_eq rfl⟩

end Occurrence

/-! ### Everything that is written -/

/-- What is written on the way from one stage to another is what the occurrences write. -/
theorem Stage.Leads.writes {ctx : LoadContext} {s s' : Stage (Logged H)}
    {os : List (Occurrence (Logged H))} (h : s.Leads ctx os s') :
    s.world.Writes (os.flatMap (Occurrence.writes ctx)) s'.world := by
  induction h with
  | nil => exact .of_host_eq rfl
  | cons _ _ _ ih =>
    rw [List.flatMap_cons]
    exact (Occurrence.writes_next ctx _).trans ih

namespace Engine

variable {e e' e'' : Engine (Logged H)} {os os' : List (Nat × Occurrence (Logged H))}

/-- On the way from `e` to `e'` the context stays the same, and what is written is what these
occurrences write. -/
structure Writes (e : Engine (Logged H)) (os : List (Nat × Occurrence (Logged H)))
    (e' : Engine (Logged H)) : Prop where
  context_eq : e'.context = e.context
  writes : e.world.Writes (os.flatMap fun x => x.2.writes e.context) e'.world

namespace Writes

theorem nil (hcontext : e'.context = e.context) (hworld : e.world.Writes [] e'.world) :
    e.Writes [] e' :=
  ⟨hcontext, hworld⟩

theorem trans (h : e.Writes os e') (h' : e'.Writes os' e'') : e.Writes (os ++ os') e'' := by
  refine ⟨h'.context_eq.trans h.context_eq, ?_⟩
  rw [List.flatMap_append]
  exact h.writes.trans (h.context_eq ▸ h'.writes)

theorem perform (e : Engine (Logged H)) (job : Job) :
    e.Writes (e.jobTranscript job) (e.perform job) := by
  unfold jobTranscript Engine.perform updateRunner
  cases e.runners[job.runner]? with
  | none => exact nil rfl (.of_host_eq rfl)
  | some r =>
    refine ⟨rfl, ?_⟩
    rw [List.flatMap_map]
    exact (r.leads_perform e.world job.task).writes

/-- Whatever the host is asked to write in a turn, a node asks for when something happens to it. -/
theorem turn (e : Engine (Logged H)) : e.Writes (e.actionTranscript .turn) (e.act .turn) :=
  turnTranscript_induct (fun _ => nil rfl (.of_host_eq rfl)) (fun h h' => h.trans h') perform
    (fun _ _ => nil rfl (.of_host_eq rfl)) e

/-- The same of a load, from the moment when the new graphs are at hand. -/
theorem install (e : Engine (Logged H)) (c : Configuration) :
    (e.assemble c).Writes (e.installTranscript c) (e.install c).2 := by
  refine installTranscript_induct (fun _ => nil rfl (.of_host_eq rfl))
    (fun h h' => h.trans h') perform (fun e signal => nil rfl ?_) e c
  -- a signal is registered, subscribed to and read
  let w : World (Logged H) := { e.world with registered := signal :: e.world.registered }
  have hsubscribed : w.Writes [] (w.subscribe signal) :=
    .call w (Host.subscribe w.host.host signal) (.subscribe signal) _
  have hread : (w.subscribe signal).Writes [] ((w.subscribe signal).read signal).2 :=
    .call _ (Host.read (w.subscribe signal).host.host signal) (.read signal _) false
  exact hsubscribed.trans hread

end Writes

end Engine

end SignalGraph
