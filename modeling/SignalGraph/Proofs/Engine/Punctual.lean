import SignalGraph.Proofs.Engine.Requests
import SignalGraph.Proofs.Engine.Timely
import SignalGraph.Proofs.Node.Pace

/-!
# Punctuality

If timers wait on the clock, then no timer is ever overdue (`World.ledger_onTime`), so in an orderly
run each of them fires exactly when it is due. What the chronicle says about an orderly run is
therefore punctual (`Engine.Working.timed`).
-/

namespace SignalGraph

variable {H : Type}

/-! ### Timers that are not overdue -/

namespace World

/-- Timers wait on the clock, and none is overdue. -/
structure OnTime (w : World H) : Prop where
  shared : w.service = .shared
  upcoming : ∀ entry ∈ w.timeline.pending, w.timeline.elapsed ≤ entry.1.due

variable {w : World H}

theorem service_withTimeline_of_shared (h : w.service = .shared) (t : Timeline Fire) :
    (w.withTimeline t).service = .shared := by
  unfold withTimeline
  rw [h]

/-- Where timers share the clock, its timeline is the one they wait on. -/
theorem timeline_eq_clock (h : w.service = .shared) : w.timeline = w.clock := by
  rw [timeline, h]

theorem OnTime.withTimeline {t : Timeline Fire} (h : w.service = .shared)
    (hupcoming : ∀ entry ∈ t.pending, t.elapsed ≤ entry.1.due) : (w.withTimeline t).OnTime := by
  refine ⟨service_withTimeline_of_shared h t, ?_⟩
  rw [timeline_withTimeline]
  exact hupcoming

/-- Whatever a node does, no timer that waits is overdue. -/
theorem ledger_onTime (H : Type) : Ledger fun (w : World H) _ => w.OnTime where
  perm _ h := h
  quiet hw h := by
    refine ⟨hw.service_eq.trans h.shared, ?_⟩
    rw [hw.timeline_eq]
    exact h.upcoming
  cancel {w _} _ timer h := by
    unfold cancelTimer
    split
    · refine .withTimeline h.shared fun entry hentry => ?_
      exact h.upcoming entry (List.mem_filter.1 hentry).1
    · exact h
  schedule {w _} fire delay _ h := by
    unfold World.schedule
    split
    · exact ⟨h.shared, h.upcoming⟩
    · refine OnTime.withTimeline (w := { w with nextToken := w.nextToken + 1 }) h.shared ?_
      intro entry hentry
      -- the new timer is due after a delay from now, the others are due when they were
      rcases List.mem_cons.1 ((Timeline.schedule_perm _ _ _).mem_iff.1 hentry) with rfl | hold
      · exact Nat.le_add_right _ _
      · exact h.upcoming entry hold

/-- A timer that falls due does so at its time, and leaves none overdue. -/
theorem OnTime.popDue {target : Nat} {fire : Fire} {t : Timeline Fire} (h : w.OnTime)
    (hordered : w.timeline.Ordered) (hpop : w.timeline.popDue? target = some (fire, t)) :
    ∃ ticket, w.timeline.pending = (ticket, fire) :: t.pending ∧ t.elapsed = ticket.due ∧
      w.timeline.elapsed ≤ t.elapsed ∧ t.start = w.timeline.start ∧ (w.withTimeline t).OnTime := by
  unfold Timeline.popDue? at hpop
  split at hpop
  · cases hpop
  next ticket fire' rest hpending =>
  obtain ⟨-, hpop⟩ := Option.ite_none_right_eq_some.1 hpop
  cases hpop
  -- no timer is overdue, so the clock moves on exactly to where this one is due
  have hle : w.timeline.elapsed ≤ ticket.due := by
    refine h.upcoming (ticket, fire) ?_
    rw [hpending]
    exact List.mem_cons_self
  have helapsed : max w.timeline.elapsed ticket.due = ticket.due := Nat.max_eq_right hle
  refine ⟨ticket, hpending, helapsed, Nat.le_max_left _ _, rfl, .withTimeline h.shared ?_⟩
  intro entry hentry
  have hsorted := hordered.sorted
  rw [hpending] at hsorted
  have hbefore := (Ticket.before_iff _ _).1 ((List.pairwise_cons.1 hsorted).1 entry hentry)
  show max w.timeline.elapsed ticket.due ≤ entry.1.due
  dsimp only at hbefore
  omega

/-- When nothing is due any more, time may go on. -/
theorem OnTime.reach {target : Nat} (h : w.OnTime) (hordered : w.timeline.Ordered)
    (hpop : w.timeline.popDue? target = none) :
    (w.withTimeline (w.timeline.reach target)).OnTime := by
  refine .withTimeline h.shared fun entry hentry => ?_
  have hupcoming := h.upcoming entry hentry
  have hdue := hordered.lt_due hpop entry hentry
  exact Nat.max_le.2 ⟨hupcoming, Nat.le_of_lt hdue⟩

end World

namespace Engine

variable {e e' e'' : Engine H} {entries entries' : List Entry} {limit : Nat}

/-! ### Punctual runs -/

/-- What happens on the way from `e` to `e'` is punctual and happens in the time between. -/
structure Timed (e : Engine H) (entries : List Entry) (e' : Engine H) : Prop where
  start_eq : e'.world.clock.start = e.world.clock.start
  elapsed_le : e.world.clock.elapsed ≤ e'.world.clock.elapsed
  punctual : Punctual e.world.clock.start (entries.map Entry.episode)
  within : ∀ entry ∈ entries, e.world.clock.elapsed ≤ entry.episode.time ∧
    entry.episode.time ≤ e'.world.clock.elapsed

namespace Timed

theorem nil (hstart : e'.world.clock.start = e.world.clock.start)
    (helapsed : e.world.clock.elapsed ≤ e'.world.clock.elapsed) : e.Timed [] e' :=
  ⟨hstart, helapsed, .nil _, nofun⟩

/-- Chronicles whose times do not decrease may follow one another. -/
theorem trans (h : e.Timed entries e') (h' : e'.Timed entries' e'') :
    e.Timed (entries ++ entries') e'' := by
  have hle := h.elapsed_le
  have hle' := h'.elapsed_le
  refine ⟨h'.start_eq.trans h.start_eq, Nat.le_trans hle hle', ?_, ?_⟩
  · rw [List.map_append]
    refine h.punctual.append (h.start_eq ▸ h'.punctual) ?_
    intro ep hep ep' hep'
    obtain ⟨entry, hentry, rfl⟩ := List.mem_map.1 hep
    obtain ⟨entry', hentry', rfl⟩ := List.mem_map.1 hep'
    exact Nat.le_trans (h.within entry hentry).2 (h'.within entry' hentry').1
  · intro entry hentry
    rcases List.mem_append.1 hentry with hentry | hentry
    · have hwithin := h.within entry hentry
      omega
    · have hwithin := h'.within entry hentry
      omega

end Timed

/-- What happens at once is punctual if timers wait on the clock. -/
theorem AtOnce.timed (h : e.AtOnce entries e') (hshared : e.world.service = .shared) :
    e.Timed entries e' := by
  have hclock := World.timeline_eq_clock hshared
  have htime : ∀ entry ∈ entries, entry.episode.time = e.world.clock.elapsed := by
    intro entry hentry
    rw [← hclock]
    exact (h.timely entry hentry).time_eq
  have helapsed := h.sameTimes.clock.elapsed_eq
  refine ⟨h.sameTimes.clock.start_eq, Nat.le_of_eq helapsed.symm, ⟨?_, ?_, ?_⟩, ?_⟩
  -- all times are the same, so none is less than one before it
  · refine List.pairwise_iff_forall_sublist.2 ?_
    intro ep ep' hsub
    obtain ⟨entry, hentry, rfl⟩ := List.mem_map.1 (hsub.subset List.mem_cons_self)
    obtain ⟨entry', hentry', rfl⟩ :=
      List.mem_map.1 (hsub.subset (List.mem_cons_of_mem _ List.mem_cons_self))
    rw [htime entry hentry, htime entry' hentry']
  · intro ep hep
    obtain ⟨entry, hentry, rfl⟩ := List.mem_map.1 hep
    rw [(h.timely entry hentry).moment_eq, htime entry hentry]
    rfl
  · intro ep hep timer hoccasion
    obtain ⟨entry, hentry, rfl⟩ := List.mem_map.1 hep
    rw [(h.timely entry hentry).time_eq]
    exact (h.timely entry hentry).due timer hoccasion
  · intro entry hentry
    have hentryTime := htime entry hentry
    omega

/-! ### Actions -/

variable [Host H]

/-- An engine at work. No timer is overdue, and none has fired without being handled. -/
structure Working (e : Engine H) : Prop where
  reachable : Reachable e
  balanced : e.Balanced
  onTime : e.world.OnTime

/-- The chronicle of a run may be cut in two at any place. -/
theorem chronicle_append (e : Engine H) (as bs : List (Action H)) :
    e.chronicle (as ++ bs) = e.chronicle as ++ (e.run as).chronicle bs :=
  foldNotes_append _ _ _ _ _

/-- A fresh engine whose timers share the clock is at work. -/
theorem Fresh.working (h : e.Fresh) (hshared : e.world.service = .shared) : e.Working where
  reachable := .fresh h
  balanced := (AtRest.fresh h).balanced
  onTime := by
    refine ⟨hshared, ?_⟩
    rw [h.pending]
    exact nofun

theorem timeline_ringing {fire : Fire} {t : Timeline Fire} :
    (e.ringing fire t).world.timeline = t := by
  rw [ringing_eq]
  exact World.timeline_withTimeline e.world t

namespace Working

variable {target : Nat} {fire : Fire} {t : Timeline Fire}

/-- A load takes no time. -/
theorem install (h : e.Working) (c : Configuration) :
    e.AtOnce (e.installCourse c) (e.install c).2 ∧ (e.install c).2.Working :=
  ⟨.install e c, h.reachable.act (.install c),
    ledger_install (World.ledger_balanced H) c h.balanced,
    ledger_install (World.ledger_onTime H) c h.onTime⟩

theorem stop (h : e.Working) : e.AtOnce [] e.stop ∧ e.stop.Working := by
  have hteardown := (World.ledger_onTime H).teardown h.onTime
  have htimes : e.teardown.world.SameTimes e.world :=
    Ledger.teardown (World.ledger_sameTimes e.world) (.refl _)
  refine ⟨.of_sameTimes ⟨htimes.clock, htimes.timeline⟩, h.reachable.act .stop, h.balanced.stop, ?_⟩
  exact ⟨hteardown.shared, hteardown.upcoming⟩

theorem change (h : e.Working) (c : Change) :
    e.AtOnce [] (e.act (.post (.change c))) ∧ (e.act (.post (.change c))).Working := by
  refine ⟨.of_sameTimes ⟨.refl _, .refl _⟩, h.reachable.act _, ?_, h.onTime.shared,
    h.onTime.upcoming⟩
  refine ⟨h.balanced.ordered, ?_, h.balanced.perm⟩
  intro event hevent
  rcases List.mem_append.1 hevent with hevent | hevent
  · exact h.balanced.changes event hevent
  · exact ⟨c, List.mem_singleton.1 hevent⟩

theorem turn (h : e.Working) :
    e.AtOnce (e.actionCourse .turn) (e.act .turn) ∧ (e.act .turn).Working := by
  cases hqueue : e.world.queue with
  | nil =>
    have hact : e.act .turn = e := by
      rw [act, turn?_eq_none_iff.2 hqueue]
      rfl
    rw [hact, actionCourse, hqueue]
    exact ⟨.of_sameTimes (.refl _), h⟩
  | cons event rest =>
    -- in a balanced engine, every event that waits is a change
    obtain ⟨c, rfl⟩ := h.balanced.changes event (hqueue ▸ List.mem_cons_self)
    have hturn : e.turn? = some ((e.withQueue rest).handle (.change c)) := by
      unfold turn?
      rw [hqueue]
      rfl
    refine ⟨.change hqueue, h.reachable.act .turn, ?_, ?_⟩
    · rw [act_turn hturn]
      exact h.balanced.turn? hturn
    · rw [act_turn hturn]
      refine (World.ledger_onTime H).closed.handle_change c ?_
      exact ⟨h.onTime.shared, h.onTime.upcoming⟩

/-- A timer that falls due is due for the node that has armed it. -/
theorem due (h : e.Working) (hpop : e.world.timeline.popDue? target = some (fire, t)) {i : Nat}
    {r : Runner} (hr : e.runners[i]? = some r) (hgraph : r.graph.id = fire.graph)
    (hgeneration : fire.generation = e.generation) : r.Due fire t.elapsed := by
  intro j n hn hnode timer htimer hkey htoken
  obtain ⟨c, hruns⟩ := h.reachable.exists_runs
  obtain ⟨ticket, hpending, helapsed, -, -, -⟩ := h.onTime.popDue h.balanced.ordered hpop
  have hlive : e.world.service ≠ .inert := by
    rw [h.onTime.shared]
    exact nofun
  -- the entry of the timeline and the timer of the node are one arming
  have hentry : (⟨fire, some ticket⟩ : Arming) ∈ e.armings := by
    refine (h.balanced.perm hlive).subset ?_
    rw [hpending]
    exact List.mem_cons_self
  have harming := arming_mem_armings hr hn htimer
  have hfire : (timer.arming e.generation r.graph.id n.id).fire = fire := by
    rw [ArmedTimer.arming, hgraph, hnode, hkey, htoken, ← hgeneration]
  have hsame := eq_of_fire_eq hruns harming hentry hfire
  exact ⟨ticket, congrArg Arming.ticket hsame, helapsed.symm⟩

/-- After the turn of the fire, no timer is overdue either. -/
theorem handle_fire (h : e.Working) (hqueue : e.world.queue = [])
    (hpop : e.world.timeline.popDue? target = some (fire, t)) :
    ((e.ringing fire t).act .turn).Working := by
  obtain ⟨c, hruns⟩ := h.reachable.exists_runs
  obtain ⟨-, -, -, -, -, honTime⟩ := h.onTime.popDue h.balanced.ordered hpop
  refine ⟨(h.reachable.run _).act .turn, ?_, ?_⟩
  all_goals rw [act_turn (turn?_ringing hqueue)]
  · exact h.balanced.fired hruns hpop
  -- whether the fire is refused or takes its arming away, no timer becomes overdue
  rcases handle_timer (e := { e with world := e.world.withTimeline t }) hruns fire with
    ⟨hself, -⟩ | ⟨_, _, -, hkeeps⟩
  · rw [hself]
    exact honTime
  · exact hkeeps (World.ledger_onTime H) honTime

/-- The fire of a timer that falls due is handled when the timer is due. -/
theorem atOnce_ring (h : e.Working) (hqueue : e.world.queue = [])
    (hpop : e.world.timeline.popDue? target = some (fire, t)) :
    (e.ringing fire t).AtOnce ((e.ringing fire t).actionCourse .turn)
      ((e.ringing fire t).act .turn) := by
  have hringing : e.ringing fire t = ({ e with world := e.world.withTimeline t } :
      Engine H).withQueue [.timer fire] := ringing_eq_withQueue hqueue
  have hwaits : (e.ringing fire t).world.queue = [.timer fire] := by
    rw [hringing]
    rfl
  refine AtOnce.fire hwaits fun i r hr hgraph hgeneration => ?_
  -- the running graphs are those from before the timer fell due
  rw [hringing] at hr hgeneration
  rw [timeline_ringing]
  exact h.due hpop hr hgraph hgeneration

/-- A timer that falls due fires on time. -/
theorem ring (h : e.Working) (hqueue : e.world.queue = [])
    (hpop : e.world.timeline.popDue? target = some (fire, t)) :
    e.Timed ((e.ringing fire t).actionCourse .turn) ((e.ringing fire t).act .turn) ∧
      ((e.ringing fire t).act .turn).Working := by
  obtain ⟨-, -, -, hle, hstart, honTime⟩ := h.onTime.popDue h.balanced.ordered hpop
  -- the clock is the timeline on which the timers wait
  have hshared : (e.ringing fire t).world.service = .shared := by
    rw [ringing_eq_withQueue hqueue]
    exact honTime.shared
  have hclock : (e.ringing fire t).world.clock = t :=
    (World.timeline_eq_clock hshared).symm.trans timeline_ringing
  have hwaiting : e.Timed [] (e.ringing fire t) := by
    rw [World.timeline_eq_clock h.onTime.shared, ← hclock] at hle hstart
    exact .nil hstart hle
  exact ⟨hwaiting.trans ((h.atOnce_ring hqueue hpop).timed hshared), h.handle_fire hqueue hpop⟩

/-- The clock moves on to a time by which nothing is due. -/
theorem reach (h : e.Working) (hpop : e.world.timeline.popDue? target = none) :
    e.Timed [] (e.act (e.moving (e.world.timeline.reach target))) ∧
      (e.act (e.moving (e.world.timeline.reach target))).Working := by
  have honTime := h.onTime.reach h.balanced.ordered hpop
  have hclock : (e.world.withTimeline (e.world.timeline.reach target)).clock =
      e.world.timeline.reach target := by
    rw [← World.timeline_eq_clock honTime.shared, World.timeline_withTimeline]
  rw [act_moving]
  refine ⟨.nil ?_ ?_, h.reachable.withTimeline _, ?_, honTime⟩
  · rw [hclock, World.timeline_eq_clock h.onTime.shared]
    rfl
  · rw [hclock, World.timeline_eq_clock h.onTime.shared]
    exact Nat.le_max_left _ _
  · exact h.balanced.withTimeline (h.balanced.ordered.reach _) rfl

/-- A shift of the local wall clock is no passing of time. -/
theorem shiftLocal (h : e.Working) (millis : Int) :
    e.Timed [] (e.shiftLocal millis) ∧ (e.shiftLocal millis).Working := by
  have hupcoming := h.onTime.upcoming
  rw [World.timeline_eq_clock h.onTime.shared] at hupcoming
  refine ⟨.nil rfl (Nat.le_refl _), h.reachable.act (.outside _ _ _), h.balanced.shiftLocal millis,
    h.onTime.shared, ?_⟩
  rw [World.timeline_eq_clock (w := (e.shiftLocal millis).world) h.onTime.shared]
  exact hupcoming

/-- What happens to the host takes no time. -/
theorem host (h : e.Working) (host : H) :
    e.Timed [] (e.act (.outside host e.world.clock e.world.service)) ∧
      (e.act (.outside host e.world.clock e.world.service)).Working := by
  refine ⟨.nil rfl (Nat.le_refl _), h.reachable.act _, ?_, h.onTime.shared, h.onTime.upcoming⟩
  exact ⟨h.balanced.ordered, h.balanced.changes, h.balanced.perm⟩

/-! ### Runs -/

/-- A punctual step, and the rest of the run. -/
theorem and_then (h : e.Timed entries e' ∧ e'.Working)
    (hrest : e'.Working → e'.Timed entries' e'' ∧ e''.Working) :
    e.Timed (entries ++ entries') e'' ∧ e''.Working := by
  obtain ⟨hfirst, hworking⟩ := h
  obtain ⟨hlater, hlast⟩ := hrest hworking
  exact ⟨hfirst.trans hlater, hlast⟩

/-- What happens in an orderly run is punctual, and the engine is still at work at its end. -/
theorem timed_run {as : List (Action H)} (h : e.Working) (horderly : e.Orderly as) :
    e.Timed (e.chronicle as) (e.run as) ∧ (e.run as).Working := by
  induction horderly with
  | nil => exact ⟨.nil rfl (Nat.le_refl _), h⟩
  | install c _ ih => exact and_then ((h.install c).imp_left (·.timed h.onTime.shared)) ih
  | stop _ ih => exact and_then (h.stop.imp_left (·.timed h.onTime.shared)) ih
  | change c _ ih => exact and_then ((h.change c).imp_left (·.timed h.onTime.shared)) ih
  | turn _ ih => exact and_then (h.turn.imp_left (·.timed h.onTime.shared)) ih
  | fire hqueue hpop _ ih => exact (and_then (h.ring hqueue hpop) ih :)
  | reach _ hpop _ ih => exact and_then (h.reach hpop) ih
  | shiftLocal millis _ ih => exact and_then (h.shiftLocal millis) ih
  | host host _ ih => exact and_then (h.host host) ih

/-- What happens in an orderly run is punctual. -/
theorem timed {as : List (Action H)} (h : e.Working) (horderly : e.Orderly as) :
    e.Timed (e.chronicle as) (e.run as) :=
  (h.timed_run horderly).1

/-- The engine stays at work in an orderly run. -/
theorem run {as : List (Action H)} (h : e.Working) (horderly : e.Orderly as) :
    (e.run as).Working :=
  (h.timed_run horderly).2

end Working

end Engine

end SignalGraph
