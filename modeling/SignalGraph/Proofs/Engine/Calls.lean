import SignalGraph.Proofs.Engine.Effects

/-!
# Calls and the events they bring

Calls are made to the engine from outside, one after the other (`Engine.Calls`). While a call is
served, the host may report changes from inside any of the calls made to it. Those that are accepted
are handled in turns (`Engine.Turns`), first in, first out: `Turns.law` says that what has been
handled and what still waits is what waited before and what has been accepted since. So a call that
returns has handled every event once, in the order in which they were accepted, and none before the
turn or the load ended in which it was accepted (`Engine.Calls.served_in_order`).
-/

namespace SignalGraph

namespace Engine

variable {H : Type} [Host H] {e e' e'' e₀ : Engine (Logged H)}

/-! ### Turns -/

/-- Events that are handled one after the other, each with the calls that the host logs
meanwhile. -/
inductive Turns : Engine (Logged H) → List (Event × List HostEntry) → Engine (Logged H) → Prop
  | nil (e : Engine (Logged H)) : Turns e [] e
  /-- The first event in the queue leaves it and is handled as a whole. -/
  | cons {e e' : Engine (Logged H)} {event : Event} {rest : List Event} {entries : List HostEntry}
    {steps : List (Event × List HostEntry)} (hqueue : e.world.queue = event :: rest)
    (hlog : ((e.withQueue rest).handle event).world.host.log = e.world.host.log ++ entries)
    (h : Turns ((e.withQueue rest).handle event) steps e') : Turns e ((event, entries) :: steps) e'

namespace Turns

variable {steps steps' : List (Event × List HostEntry)}

/-- Turns may be cut in two at any place. -/
theorem exists_of_append (h : Turns e (steps ++ steps') e'') :
    ∃ e', Turns e steps e' ∧ Turns e' steps' e'' := by
  induction steps generalizing e with
  | nil => exact ⟨e, .nil e, h⟩
  | cons step rest ih =>
    cases h with
    | cons hqueue hlog h =>
      obtain ⟨e', hrest, hrest'⟩ := ih h
      exact ⟨e', .cons hqueue hlog hrest, hrest'⟩

/-- First in, first out: what has been handled and what waits is what waited before and what has
been accepted since. -/
structure Law (e : Engine (Logged H)) (steps : List (Event × List HostEntry))
    (e' : Engine (Logged H)) : Prop where
  log_eq : e'.world.host.log = e.world.host.log ++ steps.flatMap Prod.snd
  registered_eq : e'.world.registered = e.world.registered
  effects : ∀ entry ∈ steps.flatMap Prod.snd, entry.IsEffect
  queue_eq : steps.map Prod.fst ++ e'.world.queue = e.world.queue ++
    (accepted e.world.registered (steps.flatMap Prod.snd)).map .change

/-- What one turn does to the log and to the queue. -/
theorem law_handle {event : Event} {rest : List Event} {entries : List HostEntry}
    (hlog : ((e.withQueue rest).handle event).world.host.log = e.world.host.log ++ entries) :
    (∀ entry ∈ entries, entry.IsEffect) ∧
      ((e.withQueue rest).handle event).world.registered = e.world.registered ∧
      ((e.withQueue rest).handle event).world.queue =
        rest ++ (accepted e.world.registered entries).map .change := by
  obtain ⟨logged, heffects, hlogs⟩ := (e.withQueue rest).effects_handle event
  obtain rfl : logged = entries := List.append_cancel_left (hlogs.log_eq.symm.trans hlog)
  refine ⟨heffects, ?_, hlogs.queue_eq⟩
  rw [hlogs.registered_eq]
  exact registeredAfter_effects heffects _

theorem law (h : Turns e steps e') : Law e steps e' := by
  induction h with
  | nil e =>
    exact ⟨(List.append_nil _).symm, rfl, fun _ hentry => (nomatch hentry), by simp [accepted]⟩
  | @cons e e' event rest entries steps hqueue hlog _ ih =>
    obtain ⟨heffects, hregistered, hrest⟩ := law_handle hlog
    have hall := registeredAfter_effects heffects e.world.registered
    constructor
    · rw [ih.log_eq, hlog, List.append_assoc, List.flatMap_cons]
    · rw [ih.registered_eq, hregistered]
    · intro entry hentry
      rw [List.flatMap_cons] at hentry
      exact (List.mem_append.1 hentry).elim (heffects entry) (ih.effects entry)
    · rw [List.flatMap_cons, accepted_append, hall, List.map_append, hqueue, List.map_cons,
        List.cons_append, ih.queue_eq, hrest, hregistered]
      simp only [List.cons_append, List.append_assoc]

end Turns

/-- What a queue that is worked off needs is turns. -/
theorem exists_turns_of_settle {limit : Nat} (h : settle limit e = some e') :
    ∃ steps, Turns e steps e' ∧ e'.world.queue = [] := by
  induction limit generalizing e with
  | zero =>
    unfold settle at h
    split at h
    · next hnone =>
      cases h
      exact ⟨[], .nil _, turn?_eq_none_iff.1 hnone⟩
    · cases h
  | succ limit ih =>
    unfold settle at h
    split at h
    · next hnone =>
      cases h
      exact ⟨[], .nil _, turn?_eq_none_iff.1 hnone⟩
    · next e₁ hturn =>
      obtain ⟨event, rest, hqueue, rfl⟩ := turn?_eq_some hturn
      obtain ⟨entries, -, hlogs⟩ := (e.withQueue rest).effects_handle event
      obtain ⟨steps, hsteps, hempty⟩ := ih h
      exact ⟨(event, entries) :: steps, .cons hqueue hlogs.log_eq hsteps, hempty⟩

/-! ### The order of events -/

/-- The events of these turns are those that waited first and those that were accepted since, in
this order. -/
structure InOrder (posted : List Event) (registered : List String)
    (steps : List (Event × List HostEntry)) : Prop where
  /-- Every event is handled once, and they are handled in the order in which they were accepted. -/
  handled_eq : steps.map Prod.fst =
    posted ++ (accepted registered (steps.flatMap Prod.snd)).map .change
  /-- A turn handles an event that was accepted before it started. -/
  causal : ∀ before event entries after, steps = before ++ (event, entries) :: after →
    before.map Prod.fst ++ [event] <+:
      posted ++ (accepted registered (before.flatMap Prod.snd)).map .change

/-- From a state in which these events wait, all that wait and all that are accepted meanwhile are
handled. -/
structure Served (posted : List Event) (e : Engine (Logged H))
    (steps : List (Event × List HostEntry)) (e' : Engine (Logged H)) : Prop where
  turns : Turns e steps e'
  inOrder : InOrder posted e.world.registered steps
  queue_eq : e'.world.queue = []

theorem exists_served {limit : Nat} (h : settle limit e = some e') :
    ∃ steps, Served e.world.queue e steps e' := by
  obtain ⟨steps, hturns, hempty⟩ := exists_turns_of_settle h
  refine ⟨steps, hturns, ⟨?_, ?_⟩, hempty⟩
  · have hqueue := hturns.law.queue_eq
    rwa [hempty, List.append_nil] at hqueue
  · rintro before event entries after rfl
    obtain ⟨e₁, hbefore, hafter⟩ := hturns.exists_of_append
    cases hafter with
    | @cons _ _ _ rest _ _ hqueue =>
      refine ⟨rest, ?_⟩
      rw [← hbefore.law.queue_eq, hqueue, List.append_assoc]
      rfl

/-! ### Calls -/

/-- A call from outside. -/
inductive Call (H : Type) where
  | load (c : Configuration)
  | stop
  | change (c : Change)
  /-- A fire is delivered, genuine or not. -/
  | fire (fire : Fire)
  /-- The host, the clock and the timers that wait change on their own. -/
  | outside (host : H) (clock : Timeline Fire) (service : TimerService)

/-- Serves a call; undefined if it does not return within so many turns. -/
def call (limit : Nat) (e : Engine (Logged H)) : Call H → Option (Engine (Logged H))
  | .load c => (e.load limit c).map Prod.snd
  | .stop => some e.stop
  | .change c => e.change limit c
  | .fire fire => e.submit limit (.timer fire)
  | .outside host clock service =>
    some { e with
      world := { e.world with
        host := { e.world.host with host := host }, clock := clock, service := service } }

/-- Calls that are made one after the other, each with what the host logs meanwhile. -/
inductive Calls : Engine (Logged H) → List (Call H × List HostEntry) → Engine (Logged H) → Prop
  | nil (e : Engine (Logged H)) : Calls e [] e
  | snoc {e₀ e e' : Engine (Logged H)} {trace : List (Call H × List HostEntry)} {limit : Nat}
    {call : Call H} {entries : List HostEntry} (h : Calls e₀ trace e)
    (hcall : e.call limit call = some e')
    (hlog : e'.world.host.log = e.world.host.log ++ entries) :
    Calls e₀ (trace ++ [(call, entries)]) e'

/-- The changes that turns have handled. -/
def changesOf (steps : List (Event × List HostEntry)) : List Change :=
  steps.filterMap fun step => step.1.change?

/-- The ways a call is served that returns. -/
inductive CallOutcome (e : Engine (Logged H)) : Call H → Engine (Logged H) → Prop
  /-- The load itself comes first, up to the priming of the last graph; a signal is registered in it
  before it is subscribed to. What is accepted meanwhile is handled afterwards, on top of the values
  that the load has read. -/
  | load {c : Configuration} {e' : Engine (Logged H)} (farewells opening : List HostEntry)
    (steps : List (Event × List HostEntry)) (hfarewells : e.Farewells farewells)
    (hregistered : e.teardown.world.registered = [])
    (hopening : e.teardown.world.Logs opening (e.install c).2.world)
    (hvalues : Opening opening (subscriberTable (buildGraphs [] c.graphs).1).keys
      (e.initialChanges c))
    (hserved : Served
      ((accepted e.world.registered farewells ++ accepted [] opening).map .change) (e.install c).2
      steps e')
    (htracks : ∀ before after e₁, steps = before ++ after → Turns (e.install c).2 before e₁ →
      Tracks (buildGraphs [] c.graphs).1 (lastValues (e.initialChanges c ++ changesOf before)) e₁) :
    CallOutcome e (.load c) e'
  | stop (hqueue : e.stop.world.queue = []) : CallOutcome e .stop e.stop
  /-- A change of a registered signal is accepted. -/
  | accepted {c : Change} {e' : Engine (Logged H)} (steps : List (Event × List HostEntry))
    (hregistered : c.signal ∈ e.world.registered)
    (hserved : Served [.change c] (e.withQueue [.change c]) steps e') : CallOutcome e (.change c) e'
  /-- A change of another signal is dropped. -/
  | dropped {c : Change} (hregistered : c.signal ∉ e.world.registered) : CallOutcome e (.change c) e
  | fire {fire : Fire} {e' : Engine (Logged H)} (steps : List (Event × List HostEntry))
    (hserved : Served [.timer fire] (e.withQueue [.timer fire]) steps e') :
    CallOutcome e (.fire fire) e'
  /-- No event is involved. -/
  | outside {host : H} {clock : Timeline Fire} {service : TimerService} :
    CallOutcome e (.outside host clock service)
      { e with
        world := { e.world with
          host := { e.world.host with host := host }, clock := clock, service := service } }

theorem Tracks.turns {graphs : List Graph} {last : String → Option Value}
    {steps : List (Event × List HostEntry)} (h : Tracks graphs last e) (hturns : Turns e steps e') :
    Tracks graphs ((changesOf steps).foldl remember last) e' := by
  induction hturns generalizing last with
  | nil e => exact h
  | @cons e e' event rest entries steps hqueue hlog _ ih =>
    have hwaiting : Tracks graphs last (e.withQueue rest) := ⟨h.table, h.shows⟩
    have hrest := ih (hwaiting.handle event)
    rw [← List.foldl_append] at hrest
    have hchanges :
        changesOf ((event, entries) :: steps) = event.change?.toList ++ changesOf steps := by
      unfold changesOf
      rw [List.filterMap_cons]
      dsimp only
      cases event.change? <;> rfl
    rwa [hchanges]

theorem call_outcome {limit : Nat} {call : Call H} (hqueue : e.world.queue = [])
    (h : e.call limit call = some e') : e.CallOutcome call e' := by
  cases call with
  | load c =>
    obtain ⟨⟨report, e''⟩, hload, rfl⟩ := Option.map_eq_some_iff.1 h
    obtain ⟨_, hsettle, heq⟩ := Option.map_eq_some_iff.1 hload
    cases heq
    obtain ⟨farewells, hfarewells⟩ := e.exists_farewells
    obtain ⟨opening, hopening, hvalues⟩ := e.logs_install c
    -- what is reported while unsubscribing is still accepted; afterwards only the new signals are
    have hposted : (e.install c).2.world.queue =
        (SignalGraph.accepted e.world.registered farewells ++ SignalGraph.accepted [] opening).map
          .change := by
      rw [hopening.queue_eq, hfarewells.queue_eq, hqueue, List.nil_append, ← List.map_append]
      rfl
    obtain ⟨steps, hserved⟩ : ∃ steps,
        Served (e.install c).2.world.queue (e.install c).2 steps e'' := exists_served hsettle
    rw [hposted] at hserved
    -- the last clause: as long as events are served, the bridges show the last values
    refine .load farewells opening steps hfarewells rfl hopening hvalues hserved ?_
    intro before after e₁ _ hbefore
    rw [lastValues, List.foldl_append]
    exact (tracks_install e c).turns hbefore
  | stop =>
    cases h
    exact .stop rfl
  | change c =>
    dsimp only [Engine.call, change] at h
    split at h
    · next hregistered =>
      unfold submit at h
      rw [hqueue] at h
      obtain ⟨steps, hserved⟩ := exists_served h
      exact .accepted steps (List.contains_iff_mem.1 hregistered) hserved
    · next hregistered =>
      cases h
      exact .dropped fun hmem => hregistered (List.contains_iff_mem.2 hmem)
  | fire fire =>
    dsimp only [Engine.call] at h
    unfold submit at h
    rw [hqueue] at h
    obtain ⟨steps, hserved⟩ := exists_served h
    exact .fire steps hserved
  | outside host clock service =>
    cases h
    exact .outside

theorem CallOutcome.queue_eq_nil {call : Call H} (h : e.CallOutcome call e')
    (hqueue : e.world.queue = []) : e'.world.queue = [] := by
  cases h with
  | load _ _ _ _ _ _ _ hserved | accepted _ _ hserved | fire _ hserved => exact hserved.queue_eq
  | stop hempty => exact hempty
  | dropped | outside => exact hqueue

theorem Calls.queue_eq_nil {trace : List (Call H × List HostEntry)} (h : Calls e₀ trace e)
    (h₀ : e₀.Fresh) : e.world.queue = [] := by
  induction h with
  | nil => exact h₀.queue
  | snoc _ hcall _ ih => exact (call_outcome ih hcall).queue_eq_nil ih

/-- Events that are accepted while a call is served are queued first in, first out, and none is
lost. Whatever calls have been made before, no event waits when one returns, and the next call is
served in one of the ways of `CallOutcome`; nor is there an event that a stop could drop, if the
host reports nothing while subscriptions end. -/
theorem Calls.served_in_order {trace : List (Call H × List HostEntry)} (h₀ : e₀.Fresh)
    (hquiet : World.QuietUnsubscribe H) (h : Calls e₀ trace e) :
    e.world.queue = [] ∧ e.teardown.world.queue = [] ∧
      ∀ limit call e', e.call limit call = some e' → e.CallOutcome call e' := by
  have hqueue := h.queue_eq_nil h₀
  have hquiet' : World.QuietUnsubscribe (Logged H) := fun host signal => hquiet host.host signal
  exact ⟨hqueue, (queue_teardown hquiet' e).trans hqueue,
    fun _ _ _ hcall => call_outcome hqueue hcall⟩

/-- A bridge writes the negation of its own signal. -/
def feedback : Configuration :=
  { graphs := [{
      id := "g"
      nodes := [{ id := "a", typeName := "dp_in", params := [("dp", .str "x")] },
        { id := "b", typeName := "not" },
        { id := "c", typeName := "dp_out", params := [("dp", .str "x")] }]
      links := [⟨⟨"a", "out"⟩, ⟨"b", "in"⟩⟩, ⟨⟨"b", "out"⟩, ⟨"c", "in"⟩⟩] }] }

/-- An engine whose host reports its first two writes as changes. -/
def echoing : Engine (Logged RecordingHost) :=
  new { host := { echoes := 2 } } { start := default }

/-- The writes made while the graph is loaded come back, and are handled after the load. -/
theorem served_in_order_feedback : ∃ e', echoing.call 3 (.load feedback) = some e' ∧
    e'.world.host.log.length = 5 ∧ echoing.CallOutcome (.load feedback) e' := by
  have hreturns : (echoing.call 3 (.load feedback)).isSome = true := by decide +kernel
  have hlog :
      (echoing.call 3 (.load feedback)).map (fun e' => e'.world.host.log.length) = some 5 := by
    decide +kernel
  obtain ⟨e', he'⟩ := Option.isSome_iff_exists.1 hreturns
  have hquiet : World.QuietUnsubscribe RecordingHost := by
    intro host signal
    show (RecordingHost.unsubscribe host signal).reports = []
    unfold RecordingHost.unsubscribe
    dsimp only
    split <;> rfl
  rw [he'] at hlog
  refine ⟨e', he', Option.some.inj hlog, ?_⟩
  exact (Calls.served_in_order (fresh_new _ rfl) hquiet (.nil echoing)).2.2 3 _ e' he'

end Engine

end SignalGraph
