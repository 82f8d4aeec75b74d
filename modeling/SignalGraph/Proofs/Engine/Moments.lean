import SignalGraph.Proofs.Engine.Becoming
import SignalGraph.Proofs.Engine.Punctual

/-!
# Moment by moment

An orderly run is a row of moments: the time is the same throughout a moment, and what happens in it
begins with timers none of which is overdue. So whatever happens to a node of a running graph, the
timers that the node has armed before that time are due then or later (`Node.Advances.reached`).
-/

namespace SignalGraph

variable {H : Type} [Host H] {ctx : LoadContext}

/-- All timers wait, and none is due before this virtual time. -/
def ArmedTimers.Upcoming (time : Nat) (timers : ArmedTimers) : Prop :=
  ∀ timer ∈ timers, ∃ ticket, timer.ticket = some ticket ∧ time ≤ ticket.due

/-- The virtual time at which this happens. -/
def Occurrence.time (o : Occurrence H) : Nat :=
  o.stage.world.timeline.elapsed

/-! ### Nodes -/

namespace Node

/-- The node becomes another one moment by moment. -/
inductive Advances (ctx : LoadContext) (n₀ : Node) : List (Occurrence H) → Node → Prop
  | nil : Advances ctx n₀ [] n₀
  | moment {os now : List (Occurrence H)} {n n' : Node} {time : Nat} (hpast : Advances ctx n₀ os n)
    (hupcoming : n.timers.Upcoming time) (htime : ∀ o ∈ now, o.time = time)
    (hbecomes : n.Becomes ctx now n') : Advances ctx n₀ (os ++ now) n'

/-- These occurrences have reached this virtual time, and the timers that the node had before are
not due before `bound`. -/
inductive Reached (ctx : LoadContext) (n₀ : Node) (time bound : Nat) :
    List (Occurrence H) → Prop
  | intro {past now : List (Occurrence H)} {n : Node} (hbecomes : n₀.Becomes ctx past n)
    (hupcoming : n.timers.Upcoming bound) (htime : ∀ o ∈ now, o.time = time) :
    Reached ctx n₀ time bound (past ++ now)

variable {n₀ n n' : Node} {os os' : List (Occurrence H)}

/-- The moment goes on. -/
theorem Reached.append {time bound : Nat} (h : n₀.Reached ctx time bound os)
    (htime : ∀ o ∈ os', o.time = time) : n₀.Reached ctx time bound (os ++ os') := by
  obtain ⟨hbecomes, hupcoming, hnow⟩ := h
  rw [List.append_assoc]
  refine .intro hbecomes hupcoming fun o ho => ?_
  rcases List.mem_append.1 ho with ho | ho
  · exact hnow o ho
  · exact htime o ho

theorem Advances.trans (h : n₀.Advances ctx os n) (h' : n.Advances ctx os' n') :
    n₀.Advances ctx (os ++ os') n' := by
  induction h' with
  | nil =>
    rw [List.append_nil]
    exact h
  | moment _ hupcoming htime hbecomes ih =>
    rw [← List.append_assoc]
    exact .moment ih hupcoming htime hbecomes

theorem Advances.becomes (h : n₀.Advances ctx os n) : n₀.Becomes ctx os n := by
  induction h with
  | nil => exact .nil
  | moment _ _ _ hbecomes ih => exact ih.trans hbecomes

/-- Whatever has happened to the node before, it had no timer that is overdue. -/
theorem Advances.reached {before after : List (Occurrence H)} {o : Occurrence H}
    (h : n₀.Advances ctx (before ++ o :: after) n) : n₀.Reached ctx o.time o.time before := by
  generalize hos : before ++ o :: after = os at h
  induction h generalizing after with
  | nil => simp at hos
  | @moment os now n n' time hpast hupcoming htime _ ih =>
    rcases List.append_eq_append_iff.1 hos with ⟨rest, rfl, hnow⟩ | ⟨during, rfl, rfl⟩
    · cases rest with
      | nil =>
        -- it is the first thing that happens in the moment
        obtain rfl : o :: after = now := hnow
        rw [List.append_nil] at hpast
        rw [htime o List.mem_cons_self, ← List.append_nil before]
        exact .intro hpast.becomes hupcoming nofun
      | cons first rest =>
        obtain ⟨rfl, -⟩ := List.cons.inj hnow
        exact ih rfl
    · rw [htime o (List.mem_append_right _ List.mem_cons_self)]
      exact .intro hpast.becomes hupcoming fun x hx => htime x (List.mem_append_left _ hx)

end Node

/-! ### Engines -/

namespace Engine

variable {e e' e'' : Engine H} {os os' : List (Nat × Occurrence H)} {time : Nat}

/-- No timer of a node of a running graph is due before this virtual time. -/
def Upcoming (e : Engine H) (time : Nat) : Prop :=
  ∀ {i j : Nat} {r : Runner} {n : Node}, e.runners[i]? = some r → r.graph.nodes[j]? = some n →
    n.timers.Upcoming time

/-- The nodes of the running graphs of `e'` are nodes of `e`, which have become what they are by
these occurrences, moment by moment. -/
structure Advances (e : Engine H) (os : List (Nat × Occurrence H)) (e' : Engine H) : Prop where
  context_eq : e'.context = e.context
  exists_node : ∀ {i j : Nat} {r' : Runner} {n' : Node}, e'.runners[i]? = some r' →
    r'.graph.nodes[j]? = some n' → ∃ r n, e.runners[i]? = some r ∧ r.graph.nodes[j]? = some n ∧
      n.Advances e.context (occurrences i j os) n'

omit [Host H] in
theorem occurrences_append (i j : Nat) (os os' : List (Nat × Occurrence H)) :
    occurrences i j (os ++ os') = occurrences i j os ++ occurrences i j os' := by
  rw [occurrences, occurrencesIn, List.filterMap_append, occurrencesOf, List.filter_append]
  rfl

omit [Host H] in
theorem exists_of_mem_occurrences {i j : Nat} {o : Occurrence H}
    (ho : o ∈ occurrences i j os) : ∃ x ∈ os, x.2 = o := by
  obtain ⟨x, hx, hxo⟩ := List.mem_filterMap.1 (List.mem_filter.1 ho).1
  obtain ⟨-, heq⟩ := Option.ite_none_right_eq_some.1 hxo
  exact ⟨x, hx, Option.some.inj heq⟩

namespace Advances

theorem nil (hcontext : e'.context = e.context) (hrunners : e'.runners = e.runners) :
    e.Advances [] e' :=
  ⟨hcontext, fun hr' hn' => ⟨_, _, hrunners ▸ hr', hn', .nil⟩⟩

theorem trans (h : e.Advances os e') (h' : e'.Advances os' e'') : e.Advances (os ++ os') e'' := by
  refine ⟨h'.context_eq.trans h.context_eq, fun {i j} _ _ hr'' hn'' => ?_⟩
  obtain ⟨r', n', hr', hn', hadvances'⟩ := h'.exists_node hr'' hn''
  obtain ⟨r, n, hr, hn, hadvances⟩ := h.exists_node hr' hn'
  refine ⟨r, n, hr, hn, ?_⟩
  rw [occurrences_append]
  exact hadvances.trans (h.context_eq ▸ hadvances')

/-- An action, and the rest of the run. -/
theorem cons {a : Action H} {as : List (Action H)} (h : e.Advances (e.actionTranscript a) (e.act a))
    (hrest : (e.act a).Advances ((e.act a).transcript as) ((e.act a).run as)) :
    e.Advances (e.transcript (a :: as)) (e.run (a :: as)) :=
  h.trans hrest

/-- What happens in one moment. -/
theorem moment (h : e.Becomes os e') (hupcoming : e.Upcoming time)
    (htime : ∀ x ∈ os, x.2.time = time) : e.Advances os e' := by
  refine ⟨h.context_eq, fun {i j} r' n' hr' hn' => ?_⟩
  obtain ⟨r, hr, hgraph⟩ := h.exists_runner hr'
  obtain ⟨n, hn, hbecomes⟩ := hgraph.exists_origin hn'
  refine ⟨r, n, hr, hn, .moment .nil (hupcoming hr hn) (fun o ho => ?_) hbecomes⟩
  obtain ⟨x, hx, rfl⟩ := exists_of_mem_occurrences ho
  exact htime x hx

end Advances

/-- Just after the graphs of a configuration have been put together, their nodes are new. -/
theorem fresh_of_assemble (c : Configuration) {i j : Nat} {r : Runner} {n : Node}
    (hr : (e.assemble c).runners[i]? = some r) (hn : r.graph.nodes[j]? = some n) : n.Fresh := by
  rw [assemble, List.getElem?_toArray, List.getElem?_map] at hr
  obtain ⟨g, hg, rfl⟩ := Option.map_eq_some_iff.1 hr
  exact (fresh_of_mem_buildGraphs (List.mem_of_getElem? hg)).1.nodes j n hn

omit [Host H] in
/-- What happens at once happens at one time. -/
theorem Reads.time_eq {entries : List Entry} {e₀ e₁ : Engine H} (h : e.Reads os entries e')
    (honce : e₀.AtOnce entries e₁) : ∀ x ∈ os, x.2.time = e₀.world.timeline.elapsed := by
  intro x hx
  have hentry : entry e.context x ∈ entries := h.map_eq ▸ List.mem_map_of_mem hx
  exact (honce.timely _ hentry).time_eq

omit [Host H] in
theorem Upcoming.congr (h : e.Upcoming time) (hrunners : e'.runners = e.runners) :
    e'.Upcoming time :=
  fun hr hn => h (hrunners ▸ hr) hn

namespace Working

variable {target : Nat} {fire : Fire} {t : Timeline Fire}

/-- The timers of the nodes wait on the timeline. -/
theorem upcoming_of_pending (h : e.Working)
    (hpending : ∀ entry ∈ e.world.timeline.pending, time ≤ entry.1.due) : e.Upcoming time := by
  intro i j r n hr hn timer htimer
  have hlive : e.world.service ≠ .inert := by
    rw [h.onTime.shared]
    exact nofun
  obtain ⟨⟨ticket, fire⟩, hentry, heq⟩ := List.mem_map.1
    ((h.balanced.perm hlive).symm.subset (arming_mem_armings hr hn htimer))
  obtain ⟨-, hticket⟩ : fire = _ ∧ some ticket = timer.ticket := Arming.mk.inj heq
  exact ⟨ticket, hticket.symm, hpending _ hentry⟩

theorem upcoming (h : e.Working) : e.Upcoming e.world.timeline.elapsed :=
  h.upcoming_of_pending h.onTime.upcoming

theorem advances_install (h : e.Working) (c : Configuration) :
    (e.assemble c).Advances (e.installTranscript c) (e.install c).2 := by
  have hupcoming : (e.assemble c).Upcoming e.world.timeline.elapsed := by
    -- new nodes have no timers
    intro i j r n hr hn timer htimer
    rw [(fresh_of_assemble c hr hn).timers] at htimer
    cases htimer
  exact .moment (.install e c) hupcoming ((Reads.install e c).time_eq (h.install c).1)

theorem advances_turn (h : e.Working) :
    e.Advances (e.actionTranscript .turn) (e.act .turn) := by
  refine .moment (.act e ?_) h.upcoming ((Reads.act e ?_).time_eq h.turn.1)
  all_goals exact nofun

theorem advances_ring (h : e.Working) (hqueue : e.world.queue = [])
    (hpop : e.world.timeline.popDue? target = some (fire, t)) :
    e.Advances ((e.ringing fire t).actionTranscript .turn) ((e.ringing fire t).act .turn) := by
  obtain ⟨ticket, hpending, helapsed, -, -, honTime⟩ := h.onTime.popDue h.balanced.ordered hpop
  -- no timer is due before the one that fires
  have hupcoming : e.Upcoming t.elapsed := by
    refine h.upcoming_of_pending ?_
    rw [hpending]
    intro entry hentry
    rcases List.mem_cons.1 hentry with rfl | hentry
    · exact Nat.le_of_eq helapsed
    · have hlater := honTime.upcoming
      rw [World.timeline_withTimeline] at hlater
      exact hlater entry hentry
  have hcontext : (e.ringing fire t).context = e.context := by
    rw [ringing_eq_withQueue hqueue]
    rfl
  have hrunners : (e.ringing fire t).runners = e.runners := by
    rw [ringing_eq_withQueue hqueue]
    rfl
  have hringing : e.Advances [] (e.ringing fire t) := .nil hcontext hrunners
  have htime := (Reads.act (e.ringing fire t) (a := .turn) nofun).time_eq
    (h.atOnce_ring hqueue hpop)
  rw [timeline_ringing] at htime
  have hturn : (e.ringing fire t).Becomes ((e.ringing fire t).actionTranscript .turn)
      ((e.ringing fire t).act .turn) := .act _ nofun
  exact hringing.trans (.moment hturn (hupcoming.congr hrunners) htime)

/-- An orderly run goes on moment by moment. -/
theorem advances_run {as : List (Action H)} (h : e.Working) (horderly : e.Orderly as)
    (has : ∀ a ∈ as, ∀ c, a ≠ .install c) : e.Advances (e.transcript as) (e.run as) := by
  induction horderly with
  | nil => exact .nil rfl rfl
  | install c => exact (has _ List.mem_cons_self c rfl).elim
  | stop _ ih =>
    have hrest := ih h.stop.2 fun a ha => has a (List.mem_cons_of_mem _ ha)
    exact .cons ⟨rfl, fun hr => nomatch hr⟩ hrest
  | change c _ ih =>
    have hrest := ih (h.change c).2 fun a ha => has a (List.mem_cons_of_mem _ ha)
    exact .cons (.nil rfl rfl) hrest
  | turn _ ih =>
    have hrest := ih h.turn.2 fun a ha => has a (List.mem_cons_of_mem _ ha)
    exact .cons h.advances_turn hrest
  | fire hqueue hpop _ ih =>
    have hrest := ih (h.ring hqueue hpop).2 fun a ha =>
      has a (List.mem_cons_of_mem _ (List.mem_cons_of_mem _ (List.mem_cons_of_mem _ ha)))
    exact ((h.advances_ring hqueue hpop).trans hrest :)
  | reach _ hpop _ ih =>
    have hrest := ih (h.reach hpop).2 fun a ha => has a (List.mem_cons_of_mem _ ha)
    exact .cons (.nil rfl rfl) hrest
  | shiftLocal millis _ ih =>
    have hrest := ih (h.shiftLocal millis).2 fun a ha => has a (List.mem_cons_of_mem _ ha)
    exact .cons (.nil rfl rfl) hrest
  | host host _ ih =>
    have hrest := ih (h.host host).2 fun a ha => has a (List.mem_cons_of_mem _ ha)
    exact .cons (.nil rfl rfl) hrest

end Working

end Engine

end SignalGraph
