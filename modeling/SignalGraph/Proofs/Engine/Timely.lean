import SignalGraph.Proofs.Engine.Bookkeeping
import SignalGraph.Proofs.Engine.Chronicle

/-!
# When things happen

Time stands still while the engine is at work, so whatever the chronicle says about a load or a turn
happens at one virtual time and one absolute time (`Engine.AtOnce.install`, `Engine.AtOnce.turn`).
So a timer that falls due fires when it is due (`Engine.AtOnce.fire`).
-/

namespace SignalGraph

variable {H : Type}

/-- An episode at the times that the clocks of a world show; if a timer fires in it, it is due. -/
structure Episode.Timely (w : World H) (ep : Episode) : Prop where
  time_eq : ep.time = w.timeline.elapsed
  moment_eq : ep.reading.absoluteNow = w.clock.absoluteNow
  due : ∀ timer, ep.occasion = .fired timer → timer.Due w.timeline.elapsed

/-- Whether an episode is timely depends on the times alone. -/
theorem Episode.Timely.congr {w w' : World H} {ep : Episode} (hw : w.SameTimes w')
    (h : ep.Timely w) : ep.Timely w' where
  time_eq := h.time_eq.trans hw.timeline.elapsed_eq
  moment_eq := by
    rw [h.moment_eq, Timeline.absoluteNow, hw.clock.start_eq, hw.clock.elapsed_eq]
    rfl
  due timer htimer := hw.timeline.elapsed_eq ▸ h.due timer htimer

/-- What these notes say has happened at once, between two worlds. -/
structure World.AtOnce (w : World H) (notes : List (Nat × Episode)) (w' : World H) : Prop where
  sameTimes : w'.SameTimes w
  timely : ∀ note ∈ notes, note.2.Timely w

/-- What happens at once before and after happens at once altogether. -/
theorem World.AtOnce.trans {w w' w'' : World H} {notes notes' : List (Nat × Episode)}
    (h : w.AtOnce notes w') (h' : w'.AtOnce notes' w'') : w.AtOnce (notes ++ notes') w'' := by
  refine ⟨h'.sameTimes.trans h.sameTimes, fun note hnote => ?_⟩
  rcases List.mem_append.1 hnote with hnote | hnote
  · exact h.timely note hnote
  · exact (h'.timely note hnote).congr h.sameTimes

variable [Host H]

/-! ### Graphs -/

namespace Stage

variable (ctx : LoadContext) (s : Stage H)

omit [Host H] in
/-- An episode shows the times at which it happens; if a timer fires, it has to be due. -/
theorem timely_episode {occasion : Occasion} (commands : List Command)
    (hdue : ∀ timer, occasion = .fired timer → timer.Due s.world.timeline.elapsed) :
    (s.episode ctx occasion commands).Timely s.world :=
  ⟨rfl, rfl, hdue⟩

theorem sameTimes_evaluate (i : Nat) (trigger : Trigger) :
    (s.evaluate ctx i trigger).1.world.SameTimes s.world :=
  @Ledger.evaluate _ _ ctx [] _ s _ (World.ledger_sameTimes s.world) i trigger
    (evaluate_outcome ctx s i trigger) (.refl _)

theorem sameTimes_deliver (value : Value) (target : PortRef) :
    (s.deliver ctx value target).1.world.SameTimes s.world :=
  @Ledger.deliver _ _ ctx [] _ s _ (World.ledger_sameTimes s.world) value target
    (deliver_outcome ctx s value target) (.refl _)

omit [Host H] in
/-- What a delivery does is timely. -/
theorem timely_delivery (value : Value) (target : PortRef) :
    ∀ note ∈ s.delivery ctx value target, note.2.Timely s.world := by
  intro note hnote
  unfold delivery at hnote
  split at hnote
  · cases hnote
  · split at hnote
    · cases hnote
    · rw [List.mem_singleton.1 hnote]
      exact s.timely_episode ctx _ nofun

/-- So is what a whole propagation does, by induction on its steps. -/
theorem timely_course (steps : Nat) (f : Frontier) :
    ∀ note ∈ s.course ctx steps f, note.2.Timely s.world := by
  induction steps generalizing f s with
  | zero =>
    unfold course
    cases f.next? s.graph <;> exact List.forall_mem_nil _
  | succ steps ih =>
    unfold course
    cases f.next? s.graph with
    | none => exact List.forall_mem_nil _
    | some due =>
      obtain ⟨value, target, f'⟩ := due
      intro note hnote
      rcases List.mem_append.1 hnote with hnote | hnote
      · exact s.timely_delivery ctx value target note hnote
      · exact (ih _ _ note hnote).congr (s.sameTimes_deliver ctx value target)

/-- An evaluation and the pass that it starts happen at once. -/
theorem timely_evaluationCourse (i : Nat) {occasion : Occasion} (trigger : Trigger)
    (hdue : ∀ timer, occasion = .fired timer → timer.Due s.world.timeline.elapsed) :
    ∀ note ∈ s.evaluationCourse ctx i occasion trigger, note.2.Timely s.world := by
  intro note hnote
  rcases List.mem_cons.1 hnote with rfl | hnote
  · exact s.timely_episode ctx _ hdue
  · have hpass := timely_course ctx (s.evaluate ctx i trigger).1 _ _ note hnote
    exact hpass.congr (s.sameTimes_evaluate ctx i trigger)

end Stage

namespace Runner

variable (ctx : LoadContext) (r : Runner) (w : World H)

theorem timely_primingCourse (state : Runner × World H) (i : Nat) :
    ∀ note ∈ primingCourse ctx state i, note.2.Timely state.2 := by
  intro note hnote
  unfold primingCourse at hnote
  split at hnote
  · cases hnote
  · split at hnote
    · refine Stage.timely_evaluationCourse ctx _ i .inputs ?_ note hnote
      exact nofun
    · cases hnote

theorem timely_receptionCourse (i : Nat) (value : Value) :
    ∀ note ∈ r.receptionCourse ctx w i value, note.2.Timely w := by
  intro note hnote
  unfold receptionCourse at hnote
  split at hnote
  · cases hnote
  · split at hnote
    · split at hnote
      · cases hnote
      · rcases List.mem_cons.1 hnote with rfl | hnote
        · refine (⟨r.graph, w⟩ : Stage H).timely_episode ctx [] ?_
          exact nofun
        · exact Stage.timely_course ctx _ _ _ note hnote
    · cases hnote

/-- The timers of the graph that a fire is about are due. -/
def Due (fire : Fire) (time : Nat) : Prop :=
  ∀ (j : Nat) n, r.graph.nodes[j]? = some n → n.id = fire.node → ∀ timer ∈ n.timers,
    timer.key = fire.key → timer.token = fire.token → timer.Due time

/-- A fire is handled in time if its timer is due. -/
theorem timely_fireCourse {fire : Fire} (hdue : r.Due fire w.timeline.elapsed) :
    ∀ note ∈ r.fireCourse ctx w fire, note.2.Timely w := by
  intro note hnote
  unfold fireCourse at hnote
  split at hnote
  · cases hnote
  next i hindex =>
  split at hnote
  · cases hnote
  next n hn =>
  split at hnote
  · next timers timer htimers htimer =>
    obtain ⟨timer', htimer', hkey, htoken, hperm, -⟩ := ArmedTimers.exists_of_fired? htimers
    obtain rfl : timer' = timer := Option.some.inj (htimer'.symm.trans htimer)
    -- the timer that fires is one that the node with this id has armed
    have hid : n.id = fire.node := Graph.id_of_indexOf? hindex hn
    have hfired : timer'.Due w.timeline.elapsed :=
      hdue i n hn hid timer' (hperm.symm.subset List.mem_cons_self) hkey htoken
    have hoccasion : ∀ timer, Occasion.fired timer' = .fired timer →
        timer.Due w.timeline.elapsed := by
      rintro timer ⟨⟩
      exact hfired
    split at hnote
    · exact Stage.timely_evaluationCourse ctx _ i _ hoccasion note hnote
    · rw [List.mem_singleton.1 hnote]
      exact (⟨(r.release i n timers).graph, w⟩ : Stage H).timely_episode ctx [] hoccasion
  · cases hnote

theorem atOnce_primeNode (state : Runner × World H) (i : Nat) :
    state.2.AtOnce (primingCourse ctx state i) (primeNode ctx state i).2 where
  sameTimes := @Ledger.primeNode _ _ ctx [] _ state.1 state.2 _ (World.ledger_sameTimes state.2) i
    (primeNode_outcome ctx state.1 state.2 i) (.refl _)
  timely := timely_primingCourse ctx state i

/-- What is done to a graph at once happens at once. -/
theorem timely_course (task : Task)
    (hdue : ∀ fire, task = .fire fire → r.Due fire w.timeline.elapsed) :
    ∀ note ∈ r.course ctx w task, note.2.Timely w := by
  cases task with
  | receive i value => exact r.timely_receptionCourse ctx w i value
  | fire fire => exact r.timely_fireCourse ctx w (hdue fire rfl)
  | prime =>
    have hprime : w.AtOnce (r.course ctx w .prime) (r.prime ctx w).2 :=
      @foldNotes_induct _ _ _ (primeNode ctx) (primingCourse ctx)
        (fun state notes state' => state.2.AtOnce notes state'.2) (fun _ => ⟨.refl _, nofun⟩)
        World.AtOnce.trans (List.range r.graph.nodes.size)
        (fun state i _ => atOnce_primeNode ctx state i) (r, w)
    exact hprime.timely

end Runner

/-! ### Runs -/

namespace Engine

variable {e e' e'' : Engine H} {entries entries' : List Entry}

/-- What happens on the way from `e` to `e'` happens at once. -/
structure AtOnce (e : Engine H) (entries : List Entry) (e' : Engine H) : Prop where
  sameTimes : e'.world.SameTimes e.world
  timely : ∀ entry ∈ entries, entry.episode.Timely e.world

namespace AtOnce

omit [Host H] in
/-- Where nothing happens and no time passes, everything happens at once. -/
theorem of_sameTimes (h : e'.world.SameTimes e.world) : e.AtOnce [] e' :=
  ⟨h, nofun⟩

omit [Host H] in
theorem trans (h : e.AtOnce entries e') (h' : e'.AtOnce entries' e'') :
    e.AtOnce (entries ++ entries') e'' := by
  refine ⟨h'.sameTimes.trans h.sameTimes, fun entry hentry => ?_⟩
  rcases List.mem_append.1 hentry with hentry | hentry
  · exact h.timely entry hentry
  · exact (h'.timely entry hentry).congr h.sameTimes

/-- A job is performed at once, given that a fire among the jobs is due. -/
theorem perform (e : Engine H) (job : Job)
    (hdue : ∀ fire r, job.task = .fire fire → e.runners[job.runner]? = some r →
      r.Due fire e.world.timeline.elapsed) :
    e.AtOnce (e.jobCourse job) (e.perform job) := by
  have hlasting := World.lasting_sameTimes e.world
  unfold Engine.perform updateRunner jobCourse
  cases hr : e.runners[job.runner]? with
  | none => exact of_sameTimes (.refl _)
  | some r =>
    constructor
    · show (r.perform e.context e.world job.task).2.SameTimes e.world
      cases job.task with
      | receive i value => exact hlasting.inject e.context r i value (.refl _)
      | prime => exact hlasting.prime e.context r (.refl _)
      | fire fire =>
        show (r.onTimer e.context e.world fire).2.SameTimes e.world
        -- a fire that is not in force leaves the world alone; one in force acts on it like any pass
        rcases Ledger.onTimer (Runner.onTimer_outcome e.context r e.world fire) with
          ⟨hself, -⟩ | ⟨ticket, others, -, hkeeps⟩
        · rw [hself]
          exact .refl _
        · exact @hkeeps _ [] (World.ledger_sameTimes e.world) (.refl _)
    · intro entry hentry
      obtain ⟨note, hnote, rfl⟩ := List.mem_map.1 hentry
      have hfires := fun fire hfire => hdue fire r hfire hr
      exact r.timely_course e.context e.world job.task hfires note hnote

/-- Several jobs in a row, unless a timer fires. -/
theorem performAll (e : Engine H) {jobs : List Job}
    (hjobs : ∀ job ∈ jobs, ∀ fire, job.task ≠ .fire fire) :
    e.AtOnce (e.jobsCourse jobs) (jobs.foldl Engine.perform e) :=
  foldNotes_induct (fun _ => of_sameTimes (.refl _)) (fun h h' => h.trans h')
    (fun e job hjob => perform e job fun fire _ hfire => (hjobs job hjob fire hfire).elim) e

theorem install (e : Engine H) (c : Configuration) :
    e.AtOnce (e.installCourse c) (e.install c).2 := by
  have hassembled : e.AtOnce [] (e.assemble c) :=
    of_sameTimes (Ledger.teardown (World.ledger_sameTimes e.world) (.refl _))
  refine hassembled.trans (install_induct (fun _ => of_sameTimes (.refl _))
    (fun h h' => h.trans h') ?_ ?_ e c)
  · intro e signal
    exact of_sameTimes (quiet_subscribed e signal).sameTimes
  · intro e job hjob
    exact perform e job fun fire _ hfire => (hjob fire hfire).elim

/-- A turn in which an event is handled by jobs that do what they do at once. -/
theorem turn {event : Event} {rest : List Event} (hqueue : e.world.queue = event :: rest)
    (hjobs : (e.withQueue rest).AtOnce
      ((e.withQueue rest).jobsCourse ((e.withQueue rest).jobs event))
      (((e.withQueue rest).jobs event).foldl Engine.perform (e.withQueue rest))) :
    e.AtOnce (e.actionCourse .turn) (e.act .turn) := by
  have hturn : e.turn? = some ((e.withQueue rest).handle event) := by
    unfold turn?
    rw [hqueue]
    rfl
  -- the event leaves the queue, and then its jobs are done
  have hwaiting : e.AtOnce [] (e.withQueue rest) := of_sameTimes ⟨.refl _, .refl _⟩
  rw [← handle_eq] at hjobs
  rw [act_turn hturn, actionCourse, hqueue]
  exact hwaiting.trans hjobs

/-- The turn in which a change is handled. -/
theorem change {c : Change} {rest : List Event} (hqueue : e.world.queue = .change c :: rest) :
    e.AtOnce (e.actionCourse .turn) (e.act .turn) :=
  turn hqueue (performAll _ fun _ => task_ne_of_mem_deliveries)

/-- The turn in which a timer fires that is due. -/
theorem fire {fire : Fire} {rest : List Event} (hqueue : e.world.queue = .timer fire :: rest)
    (hdue : ∀ (i : Nat) r, e.runners[i]? = some r → r.graph.id = fire.graph →
      fire.generation = e.generation → r.Due fire e.world.timeline.elapsed) :
    e.AtOnce (e.actionCourse .turn) (e.act .turn) := by
  refine turn hqueue ?_
  unfold jobs
  dsimp only
  split
  · exact of_sameTimes (.refl _)
  next hgeneration =>
  cases hindex : (e.withQueue rest).runners.findIdx? fun r => r.graph.id == fire.graph with
  | none => exact of_sameTimes (.refl _)
  | some i =>
    have hperform := perform (e.withQueue rest) ⟨i, .fire fire⟩ fun fire' r hfire hr => by
      cases hfire
      exact hdue i r hr (eq_of_findIdx?_beq hindex hr :) (not_not.1 hgeneration)
    exact hperform.trans (of_sameTimes (.refl _))

end AtOnce

end Engine

end SignalGraph
