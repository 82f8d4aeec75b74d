import SignalGraph.Proofs.Engine.Calls

/-!
# Routing

After every sequence of calls, the graphs that run are those of the configuration in force, and the
registered signals, the keys of the subscriber table and the subscriptions of the host are the
signals of their enabled input bridges; each bridge is listed once, and shows the last value
delivered for its signal (`Engine.Calls.routing_exact`). What the configuration in force is and
which values have been delivered is read off the calls and the log of the host alone
(`Engine.summary`); that the engine is as they say (`Engine.Routed`) is kept by every call
(`Engine.Routed.call`).
-/

namespace SignalGraph

/-! ### The graphs that run -/

/-- The elements before one of them, that element, and those after it, with their numbers. -/
theorem zipIdx_eq_append {α : Type} {l : List α} {k : Nat} {a : α} (h : l[k]? = some a) :
    l.zipIdx = (l.take k).zipIdx ++ (a, k) :: (l.drop (k + 1)).zipIdx (k + 1) := by
  obtain ⟨hk, rfl⟩ := List.getElem?_eq_some_iff.1 h
  conv_lhs => rw [← List.take_append_drop k l, List.drop_eq_getElem_cons hk]
  rw [List.zipIdx_append, List.length_take_of_le (Nat.le_of_lt hk), List.zipIdx_cons, Nat.zero_add]

/-- Whether a declaration runs, given its number: it is enabled, and no enabled one with the same id
precedes it. -/
def GraphDecl.leads (all : List GraphDecl) (entry : GraphDecl × Nat) : Bool :=
  entry.1.enabled && !(all.take entry.2).any fun d => d.enabled && d.id == entry.1.id

/-- The declarations that run, in order. -/
def Configuration.running (c : Configuration) : List GraphDecl :=
  (c.graphs.zipIdx.filter (GraphDecl.leads c.graphs)).map Prod.fst

/-- An enabled declaration that is the first with its id is running. -/
theorem Configuration.mem_running {c : Configuration} {i : Nat} {d : GraphDecl}
    (hd : c.graphs[i]? = some d) (hleads : GraphDecl.leads c.graphs (d, i) = true) :
    d ∈ c.running :=
  List.mem_map.2 ⟨(d, i), List.mem_filter.2 ⟨List.mk_mem_zipIdx_iff_getElem?.2 hd, hleads⟩, rfl⟩

namespace Engine

theorem buildGraphs_eq (taken : List String) (before ds : List GraphDecl)
    (htaken : ∀ id, taken.contains id = before.any fun d => d.enabled && d.id == id) :
    (buildGraphs taken ds).1 =
      ((ds.zipIdx before.length).filter (GraphDecl.leads (before ++ ds))).map
        fun entry => (Graph.build entry.1).1 := by
  induction ds generalizing taken before with
  | nil => rfl
  | cons d ds ih =>
    have hlength : before.length + 1 = (before ++ [d]).length := by rw [List.length_append]; rfl
    have hleads : GraphDecl.leads (before ++ d :: ds) (d, before.length) =
        (d.enabled && !taken.contains d.id) := by
      rw [GraphDecl.leads, List.take_left, htaken]
    -- whatever is taken next has to account for `d`
    have hnext : ∀ taken' : List String,
        (∀ id, taken'.contains id = (taken.contains id || d.enabled && d.id == id)) →
          (buildGraphs taken' ds).1 =
            ((ds.zipIdx (before.length + 1)).filter (GraphDecl.leads (before ++ d :: ds))).map
              fun entry => (Graph.build entry.1).1 := by
      intro taken' htaken'
      rw [hlength, List.append_cons]
      refine ih taken' (before ++ [d]) fun id => ?_
      rw [htaken', htaken, List.any_append, List.any_cons, List.any_nil, Bool.or_false]
    rw [List.zipIdx_cons, List.filter_cons, hleads, buildGraphs]
    cases henabled : d.enabled with
    | false =>
      refine hnext taken fun id => ?_
      rw [henabled, Bool.false_and, Bool.or_false]
    | true =>
      cases hcontains : taken.contains d.id with
      | true =>
        refine hnext taken fun id => ?_
        rw [henabled, Bool.true_and]
        by_cases hid : d.id = id
        · rw [← hid, hcontains, Bool.true_or]
        · rw [beq_eq_false_iff_ne.2 hid, Bool.or_false]
      | false =>
        refine congrArg ((Graph.build d).1 :: ·) (hnext (d.id :: taken) fun id => ?_)
        rw [henabled, Bool.true_and, List.contains_cons, Bool.or_comm, Bool.beq_comm]

/-- The graphs that a load builds are those of the declarations that run. -/
theorem buildGraphs_running (c : Configuration) :
    (buildGraphs [] c.graphs).1 = c.running.map fun d => (Graph.build d).1 := by
  rw [buildGraphs_eq [] [] c.graphs fun _ => rfl, Configuration.running, List.map_map]
  rfl

/-- Every running declaration is built, at some place among the graphs. -/
theorem exists_build_of_mem_running {c : Configuration} {d : GraphDecl} (hd : d ∈ c.running) :
    ∃ k : Nat, (buildGraphs [] c.graphs).1[k]? = some (Graph.build d).1 := by
  rw [buildGraphs_running]
  exact List.getElem?_of_mem (List.mem_map_of_mem hd)

variable {H : Type} [Host H] {e e' e₀ : Engine (Logged H)}

/-! ### What calls say -/

/-- What is known of an engine from the calls made to it and from the log of its host. -/
structure Summary where
  /-- The configuration in force; the empty one when all graphs have been stopped. -/
  config : Configuration := {}
  /-- The signals whose changes are accepted. -/
  registered : List String := []
  /-- The changes delivered since the last load: first the values that it has read, then all that
  have been accepted. -/
  delivered : List Change := []

namespace Summary

/-- What is known after a call, given what the host has logged meanwhile. While the subscriptions of
the old graphs end, their signals are still registered. -/
def after (s : Summary) : Call H × List HostEntry → Summary
  | (.load c, entries) =>
    let farewells := entries.filter fun entry => entry.unsubscribed?.isSome
    let others := entries.filter fun entry => entry.unsubscribed?.isNone
    { config := c
      registered := registeredAfter [] others
      delivered := others.filterMap HostEntry.value? ++
        (accepted s.registered farewells ++ accepted [] others) }
  | (.stop, _) => {}
  | (.change c, entries) =>
    if s.registered.contains c.signal then
      { s with delivered := s.delivered ++ c :: accepted s.registered entries }
    else s
  | (.fire _, entries) => { s with delivered := s.delivered ++ accepted s.registered entries }
  | (.outside .., _) => s

/-- The graphs that run. -/
def graphs (s : Summary) : List Graph :=
  (buildGraphs [] s.config.graphs).1

/-- The signals to which the load in force has subscribed. -/
def signals (s : Summary) : List String :=
  (subscriberTable s.graphs).keys

end Summary

/-- What is known after calls that were made to a fresh engine. -/
def summary (trace : List (Call H × List HostEntry)) : Summary :=
  trace.foldl Summary.after {}

/-! ### Between calls -/

omit [Host H] in
/-- An update replaces a runner; it adds none and removes none. -/
theorem size_updateRunner {H : Type} (e : Engine H) (i : Nat)
    (f : Runner → World H → Runner × World H) :
    (e.updateRunner i f).runners.size = e.runners.size := by
  unfold updateRunner
  split
  · rfl
  · exact Array.size_setIfInBounds

theorem closed_size (n : Nat) : Closed fun e : Engine (Logged H) => e.runners.size = n where
  inject _ _ h := (size_updateRunner _ _ _).trans h
  prime _ h := (size_updateRunner _ _ _).trans h
  quiet _ h := h

/-- Handling an event keeps the number of runners. -/
theorem size_handle (e : Engine (Logged H)) (event : Event) :
    (e.handle event).runners.size = e.runners.size := by
  cases event with
  | change c => exact (closed_size e.runners.size).handle_change c rfl
  | timer fire =>
    unfold handle
    dsimp only
    split
    · rfl
    · split
      · exact size_updateRunner _ _ _
      · rfl

/-- The engine is as its calls say. -/
structure Routed (s : Summary) (e : Engine (Logged H)) : Prop where
  runs : Runs s.config e
  size_eq : e.runners.size = s.graphs.length
  table_eq : e.subscribers = subscriberTable s.graphs
  registered_eq : e.world.registered = s.registered
  signals_eq : s.registered = s.signals.reverse
  tracks : Tracks s.graphs (lastValues s.delivered) e
  subscriptions_iff : Obliging e.world.host.log →
    ∀ signal, signal ∈ subscriptions e.world.host.log ↔ signal ∈ s.signals

namespace Routed

variable {s : Summary}

omit [Host H] in
theorem withQueue (h : Routed s e) (queue : List Event) : Routed s (e.withQueue queue) :=
  ⟨h.runs, h.size_eq, h.table_eq, h.registered_eq, h.signals_eq, ⟨h.tracks.table, h.tracks.shows⟩,
    h.subscriptions_iff⟩

/-- Nodes begin and end no subscriptions. -/
theorem mem_subscriptions_effects {log entries : List HostEntry} {signal : String}
    (heffects : ∀ entry ∈ entries, entry.IsEffect) (h : Obliging entries) :
    signal ∈ subscriptions (log ++ entries) ↔ signal ∈ subscriptions log := by
  obtain ⟨hsubscribed, hunsubscribed, -⟩ := filterMap_effects heffects
  rw [subscriptions, List.foldl_append, mem_foldl_deliver_of_none h hunsubscribed, hsubscribed]
  exact or_iff_left List.not_mem_nil

/-- Turns deliver the changes that they handle, and leave the rest as it is. -/
theorem turns {steps : List (Event × List HostEntry)} (h : Routed s e) (hturns : Turns e steps e') :
    Routed { s with delivered := s.delivered ++ changesOf steps } e' := by
  have hlaw := hturns.law
  have hkept : Runs s.config e' ∧ e'.runners.size = e.runners.size ∧
      e'.subscribers = e.subscribers := by
    have hruns := h.runs
    -- `h` and `hlaw` speak of the first engine and would generalize with it
    clear h hlaw
    induction hturns with
    | nil => exact ⟨hruns, rfl, rfl⟩
    | @cons e e' event rest _ _ _ _ _ ih =>
      have hhandled : Runs s.config ((e.withQueue rest).handle event) :=
        AllRunners.handle (kept_runs s.config) event hruns
      obtain ⟨hruns', hsize, htable⟩ := ih hhandled
      exact ⟨hruns', hsize.trans (size_handle _ event), htable.trans (subscribers_handle _ event)⟩
  refine ⟨hkept.1, hkept.2.1.trans h.size_eq, hkept.2.2.trans h.table_eq,
    hlaw.registered_eq.trans h.registered_eq, h.signals_eq, ?_, ?_⟩
  · rw [lastValues, List.foldl_append]
    exact h.tracks.turns hturns
  · intro hobliging signal
    rw [hlaw.log_eq] at hobliging ⊢
    obtain ⟨hbefore, hafter⟩ := hobliging.of_append
    rw [mem_subscriptions_effects hlaw.effects hafter]
    exact h.subscriptions_iff hbefore signal

/-- Events that have been posted and the accepted changes are all that turns deliver. -/
theorem changesOf_eq {posted : List Event} {registered : List String}
    {steps : List (Event × List HostEntry)} (h : InOrder posted registered steps) :
    changesOf steps =
      posted.filterMap Event.change? ++ accepted registered (steps.flatMap Prod.snd) := by
  have hmap : changesOf steps = (steps.map Prod.fst).filterMap Event.change? := by
    rw [changesOf, List.filterMap_map]
    rfl
  rw [hmap, h.handled_eq, List.filterMap_append, List.filterMap_map]
  congr 1
  exact List.filterMap_some

theorem served {posted : List Event} {steps : List (Event × List HostEntry)} (h : Routed s e)
    (hserved : Served posted (e.withQueue posted) steps e') :
    Routed { s with delivered := s.delivered ++
      (posted.filterMap Event.change? ++ accepted s.registered (steps.flatMap Prod.snd)) } e' := by
  have hturns := (h.withQueue posted).turns hserved.turns
  have hregistered : (e.withQueue posted).world.registered = s.registered := h.registered_eq
  rwa [changesOf_eq hserved.inOrder, hregistered] at hturns

/-- The state at the end of a load, before any event is handled. -/
theorem install {c : Configuration} {farewells opening : List HostEntry} (h : Routed s e)
    (hfarewells : e.Farewells farewells) (hregistered : e.teardown.world.registered = [])
    (hopening : e.teardown.world.Logs opening (e.install c).2.world)
    (hvalues : Opening opening (subscriberTable (buildGraphs [] c.graphs).1).keys
      (e.initialChanges c)) :
    Routed ⟨c, registeredAfter [] opening, e.initialChanges c⟩ (e.install c).2 := by
  have htable : (e.install c).2.subscribers = subscriberTable (buildGraphs [] c.graphs).1 :=
    (closed_subscribers _).install rfl
  refine ⟨runs_install e c, ?_, htable, ?_, ?_, tracks_install e c, ?_⟩
  · refine (closed_size _).install ?_
    rw [assemble, List.size_toArray, List.length_map]
    rfl
  · rw [hopening.registered_eq, hregistered]
  · rw [registeredAfter_eq, hvalues.subscribed_eq, List.append_nil]
    rfl
  · intro hobliging signal
    rw [hopening.log_eq, hfarewells.log_eq] at hobliging ⊢
    obtain ⟨hbefore, hopened⟩ := hobliging.of_append
    obtain ⟨hbefore, hended⟩ := hbefore.of_append
    -- what was subscribed to has ended, and what is subscribed to has begun
    rw [subscriptions, List.foldl_append, mem_foldl_deliver_of_none hopened hvalues.unsubscribed_eq,
      List.foldl_append, mem_foldl_deliver_of_calls hended hfarewells.calls_eq,
      hvalues.subscribed_eq, h.table_eq]
    refine or_iff_right ?_
    rintro ⟨hmem, hnot⟩
    exact hnot ((h.subscriptions_iff hbefore signal).1 hmem)

/-- The log of a load falls into the ends of the old subscriptions and the rest. -/
theorem filter_load {farewells others : List HostEntry} {signals : List String}
    (hcalls : farewells.map HostEntry.call = signals.map .unsubscribe)
    (hothers : others.filterMap HostEntry.unsubscribed? = []) :
    ((farewells ++ others).filter fun entry => entry.unsubscribed?.isSome) = farewells ∧
      ((farewells ++ others).filter fun entry => entry.unsubscribed?.isNone) = others ∧
      farewells.filterMap HostEntry.subscribed? = [] := by
  -- a farewell is an unsubscription, and therefore no subscription
  have hends : ∀ entry ∈ farewells, entry.unsubscribed?.isSome = true ∧
      entry.subscribed? = none := by
    intro entry hentry
    have hmem : entry.call ∈ farewells.map HostEntry.call := List.mem_map_of_mem hentry
    rw [hcalls] at hmem
    obtain ⟨signal, -, hsignal⟩ := List.mem_map.1 hmem
    rw [HostEntry.unsubscribed?, HostEntry.subscribed?, ← hsignal]
    exact ⟨rfl, rfl⟩
  rw [List.filterMap_eq_nil_iff] at hothers
  rw [List.filter_append, List.filter_append]
  refine ⟨?_, ?_, List.filterMap_eq_nil_iff.2 fun entry hentry => (hends entry hentry).2⟩
  · rw [List.filter_eq_self.2 fun entry hentry => (hends entry hentry).1, List.filter_eq_nil_iff.2,
      List.append_nil]
    intro entry hentry
    simp [hothers entry hentry]
  · rw [List.filter_eq_nil_iff.2, List.nil_append, List.filter_eq_self.2]
    · intro entry hentry
      rw [hothers entry hentry]
      rfl
    · intro entry hentry
      rw [Option.isNone_iff_eq_none]
      exact Option.isSome_iff_ne_none.1 (hends entry hentry).1

/-- After a load, the routing is that of the new configuration, and each of its signals has been
subscribed to once. -/
theorem load {c : Configuration} {entries : List HostEntry} (h : Routed s e)
    (hcall : e.CallOutcome (.load c) e')
    (hlog : e'.world.host.log = e.world.host.log ++ entries) :
    Routed (s.after (Call.load (H := H) c, entries)) e' ∧
      entries.filterMap HostEntry.subscribed? =
        (subscriberTable (buildGraphs [] c.graphs).1).keys := by
  cases hcall with
  | load farewells opening steps hfarewells hregistered hopening hvalues hserved htracks =>
    have hlaw := hserved.turns.law
    obtain ⟨hsubscribed, hunsubscribed, hread⟩ := filterMap_effects hlaw.effects
    -- the log of the load is that of the teardown, of the opening and of the turns
    obtain rfl : farewells ++ (opening ++ steps.flatMap Prod.snd) = entries := by
      rw [hlaw.log_eq, hopening.log_eq, hfarewells.log_eq, List.append_assoc,
        List.append_assoc] at hlog
      exact List.append_cancel_left hlog
    have hothers : (opening ++ steps.flatMap Prod.snd).filterMap HostEntry.unsubscribed? = [] := by
      rw [List.filterMap_append, hvalues.unsubscribed_eq, hunsubscribed]
      rfl
    have hreg : (e.install c).2.world.registered = registeredAfter [] opening := by
      rw [hopening.registered_eq, hregistered]
    obtain ⟨hends, hrest, hended⟩ := filter_load hfarewells.calls_eq hothers
    have hafter : s.after (Call.load (H := H) c, farewells ++ (opening ++ steps.flatMap Prod.snd)) =
        ⟨c, registeredAfter [] opening, e.initialChanges c ++ changesOf steps⟩ := by
      have hposted : ∀ l : List Change, (l.map Event.change).filterMap Event.change? = l := by
        intro l
        rw [List.filterMap_map]
        exact List.filterMap_some
      dsimp only [Summary.after]
      rw [hends, hrest, registeredAfter_append, registeredAfter_effects hlaw.effects,
        List.filterMap_append, hvalues.values_eq, hread, List.append_nil, accepted_append,
        changesOf_eq hserved.inOrder, hposted, hreg, h.registered_eq, List.append_assoc]
    refine ⟨?_, ?_⟩
    · rw [hafter]
      exact (h.install hfarewells hregistered hopening hvalues).turns hserved.turns
    · rw [List.filterMap_append, List.filterMap_append, hended, hvalues.subscribed_eq, hsubscribed,
        List.nil_append, List.append_nil]

theorem stop {entries : List HostEntry} (h : Routed s e)
    (hlog : e.stop.world.host.log = e.world.host.log ++ entries) : Routed {} e.stop := by
  obtain ⟨farewells, hfarewells⟩ := e.exists_farewells
  obtain rfl : farewells = entries :=
    List.append_cancel_left (hfarewells.log_eq.symm.trans hlog)
  refine ⟨AllRunners.stop e, rfl, rfl, rfl, rfl, ⟨AllRunners.stop e, AllRunners.stop e⟩, ?_⟩
  intro hobliging signal
  rw [hlog] at hobliging ⊢
  obtain ⟨hbefore, hended⟩ := hobliging.of_append
  rw [subscriptions, List.foldl_append, mem_foldl_deliver_of_calls hended hfarewells.calls_eq,
    h.table_eq]
  refine iff_of_false ?_ List.not_mem_nil
  rintro ⟨hmem, hnot⟩
  exact hnot ((h.subscriptions_iff hbefore signal).1 hmem)

/-- Every call that returns leaves the engine as the calls say. -/
theorem call {limit : Nat} {call : Call H} {entries : List HostEntry} (h : Routed s e)
    (hqueue : e.world.queue = []) (hcall : e.call limit call = some e')
    (hlog : e'.world.host.log = e.world.host.log ++ entries) :
    Routed (s.after (call, entries)) e' := by
  cases call_outcome hqueue hcall with
  | load farewells opening steps hfarewells hregistered hopening hvalues hserved htracks =>
    exact (h.load
      (.load farewells opening steps hfarewells hregistered hopening hvalues hserved htracks)
      hlog).1
  | stop => exact h.stop hlog
  -- the change is handled with all that it posts, and its entries are the ones that were logged
  | @accepted c _ steps hregistered hserved =>
    obtain rfl : steps.flatMap Prod.snd = entries :=
      List.append_cancel_left (hserved.turns.law.log_eq.symm.trans hlog)
    rw [h.registered_eq] at hregistered
    rw [Summary.after, if_pos (List.contains_iff_mem.2 hregistered)]
    exact h.served hserved
  | @dropped c hregistered =>
    rw [h.registered_eq] at hregistered
    rw [Summary.after, if_neg fun hmem => hregistered (List.contains_iff_mem.1 hmem)]
    exact h
  | @fire _ _ steps hserved =>
    obtain rfl : steps.flatMap Prod.snd = entries :=
      List.append_cancel_left (hserved.turns.law.log_eq.symm.trans hlog)
    exact h.served hserved
  | outside =>
    exact ⟨h.runs, h.size_eq, h.table_eq, h.registered_eq, h.signals_eq,
      ⟨h.tracks.table, h.tracks.shows⟩, h.subscriptions_iff⟩

end Routed

/-- By induction on the calls: every trace leaves an engine routed as its summary says. -/
theorem Calls.routed {trace : List (Call H × List HostEntry)} (h : Calls e₀ trace e) (h₀ : e₀.Fresh)
    (hlog : e₀.world.host.log = []) : Routed (summary trace) e := by
  induction h with
  | nil =>
    have hnone : ∀ {P : Nat → Runner → Prop}, e₀.AllRunners P := by
      intro P i r hr
      rw [h₀.runners] at hr
      cases hr
    refine ⟨hnone, ?_, h₀.subscribers, h₀.registered, rfl, ⟨hnone, hnone⟩, ?_⟩
    · rw [h₀.runners]
      rfl
    · intro _ signal
      rw [hlog]
      exact Iff.rfl
  | snoc h hcall hlog' ih =>
    rw [summary, List.foldl_append]
    exact ih.call (h.queue_eq_nil h₀) hcall hlog'

/-- What each load of a trace has logged. -/
theorem Calls.subscribed_eq {trace : List (Call H × List HostEntry)} (h : Calls e₀ trace e)
    (h₀ : e₀.Fresh) (hlog : e₀.world.host.log = []) {c : Configuration} {entries : List HostEntry}
    (hload : (.load c, entries) ∈ trace) :
    entries.filterMap HostEntry.subscribed? =
      (subscriberTable (buildGraphs [] c.graphs).1).keys := by
  induction h with
  | nil => cases hload
  | snoc h hcall hlog' ih =>
    rcases List.mem_append.1 hload with hload | hload
    · exact ih hload
    · cases List.mem_singleton.1 hload
      exact ((h.routed h₀ hlog).load (call_outcome (h.queue_eq_nil h₀) hcall) hlog').2

/-! ### Routing -/

/-- The signal that a bridge of the running graphs shows. -/
def routedSignal? (e : Engine H) (s : Subscriber) : Option String :=
  signalOf? (e.runners.toList.map Runner.graph) s

/-- The signals of the enabled input bridges of the running graphs. -/
def Receives (e : Engine H) (signal : String) : Prop :=
  ∃ s, e.routedSignal? s = some signal

/-- Signals reach the input bridges of the running graphs, and nothing else. -/
structure RoutingExact (trace : List (Call H × List HostEntry)) (e : Engine (Logged H)) : Prop where
  /-- The running graphs are those of the configuration in force, in order. -/
  running : List.Forall₂ (fun d r => (Graph.build d).1.Along Node.Step r.graph)
    (summary trace).config.running e.runners.toList
  registered_iff : ∀ signal, signal ∈ e.world.registered ↔ e.Receives signal
  keys_iff : ∀ signal, signal ∈ e.subscribers.keys ↔ e.Receives signal
  /-- A host that accepts all subscriptions delivers these signals, too. -/
  subscriptions_iff : Obliging e.world.host.log →
    ∀ signal, signal ∈ subscriptions e.world.host.log ↔ e.Receives signal
  /-- Every bridge is listed once. -/
  nodup : e.subscribers.keys.Nodup ∧ (e.subscribers.flatMap Prod.snd).Nodup
  /-- It is listed under its own signal. -/
  listed_iff : ∀ signal s,
    (∃ l, (signal, l) ∈ e.subscribers ∧ s ∈ l) ↔ e.routedSignal? s = some signal
  /-- Every load has subscribed once to each signal of its graphs. -/
  loads : ∀ c entries, (.load c, entries) ∈ trace →
    (entries.filterMap HostEntry.subscribed?).Nodup ∧
      ∀ signal, signal ∈ entries.filterMap HostEntry.subscribed? ↔
        ∃ d ∈ c.running, ∃ i, (Graph.build d).1.signal? i = some signal
  /-- A bridge shows the cast of the last value delivered for its signal. -/
  shows : ∀ r ∈ e.runners, ∀ n ∈ r.graph.nodes, ∀ b, n.enabled = true →
    n.behavior.inputBridge? = some b →
      (n.ports.outputAt 0).same (b.shown (lastValues (summary trace).delivered b.signal)) = true

omit [Host H] in
/-- What never changes about a node includes the signal that it shows. -/
theorem signal?_of_along {g g' : Graph} (h : g.Along Node.Step g') (i : Nat) :
    g'.signal? i = g.signal? i := by
  unfold Graph.signal?
  cases hn : g.nodes[i]? with
  | none =>
    have hn' : g'.nodes[i]? = none := by
      rw [Array.getElem?_eq_none_iff, h.size_eq]
      exact Array.getElem?_eq_none_iff.1 hn
    rw [hn']
  | some n =>
    obtain ⟨n', hn', -⟩ := h.exists_node hn
    have hplan := h.plan_eq hn hn'
    have henabled : n'.enabled = n.enabled := congrArg Node.Plan.enabled hplan
    have hbridge : n'.behavior.inputBridge? = n.behavior.inputBridge? := by
      rw [← Behavior.inputBridge?_parameters n'.behavior,
        ← Behavior.inputBridge?_parameters n.behavior]
      exact congrArg (fun p => Behavior.inputBridge? p.parameters) hplan
    rw [hn', Option.bind_some, Option.bind_some, Node.signal?, Node.signal?, henabled, hbridge]

namespace Routed

variable {s : Summary}

omit [Host H] in
/-- The runners run the graphs of the configuration, in order. -/
theorem forall₂_runners (h : Routed s e) :
    List.Forall₂ (fun g r => g.Along Node.Step r.graph) s.graphs e.runners.toList := by
  refine List.forall₂_iff_get.2 ⟨?_, fun i hi hi' => ?_⟩
  · rw [← h.size_eq, Array.length_toList]
  · have hr : e.runners[i]? = some (e.runners.toList.get ⟨i, hi'⟩) := by
      rw [← Array.getElem?_toList]
      exact List.getElem?_eq_getElem hi'
    obtain ⟨g, hg, halong⟩ := h.runs i _ hr
    have hget : s.graphs.get ⟨i, hi⟩ = g :=
      Option.some.inj ((List.getElem?_eq_getElem hi).symm.trans hg)
    rwa [hget]

omit [Host H] in
/-- The running graphs show the signals of the graphs that were built. -/
theorem routedSignal?_eq (h : Routed s e) : e.routedSignal? = signalOf? s.graphs := by
  ext1 b
  unfold routedSignal? signalOf?
  rw [List.getElem?_map]
  rcases forall₂_getElem? h.forall₂_runners b.runner with ⟨hg, hr⟩ | ⟨g, r, hg, hr, halong⟩
  · rw [hg, hr]
    rfl
  · rw [hg, hr]
    exact signal?_of_along halong b.node

omit [Host H] in
/-- An engine receives the signals of its configuration. -/
theorem receives_iff (h : Routed s e) (signal : String) :
    e.Receives signal ↔ signal ∈ s.signals := by
  rw [Receives, h.routedSignal?_eq, Summary.signals, mem_keys_subscriberTable]

omit [Host H] in
/-- A bridge shows the cast of the last value delivered for its signal. -/
theorem shows (h : Routed s e) {r : Runner} (hr : r ∈ e.runners) {n : Node} (hn : n ∈ r.graph.nodes)
    {b : InputBridge} (henabled : n.enabled = true) (hbridge : n.behavior.inputBridge? = some b) :
    (n.ports.outputAt 0).same (b.shown (lastValues s.delivered b.signal)) = true := by
  obtain ⟨i, hi⟩ := Array.getElem?_of_mem hr
  obtain ⟨j, hj⟩ := Array.getElem?_of_mem hn
  have hsignal : signalOf? s.graphs ⟨i, j⟩ = some b.signal := by
    rw [← h.routedSignal?_eq, routedSignal?, signalOf?, List.getElem?_map, Array.getElem?_toList,
      hi, Option.map_some, Option.bind_some, Graph.signal?, hj, Option.bind_some,
      Node.signal?_eq_some henabled hbridge]
  have hshows := (h.tracks.shows i r hi j n hj).output b henabled hbridge
  simpa only [heard, hsignal, Option.bind_some] using hshows

end Routed

/-- A signal is in the table if an input bridge of a running declaration names it. -/
theorem mem_signals_iff {c : Configuration} {signal : String} :
    signal ∈ (subscriberTable (buildGraphs [] c.graphs).1).keys ↔
      ∃ d ∈ c.running, ∃ i, (Graph.build d).1.signal? i = some signal := by
  rw [mem_keys_subscriberTable, buildGraphs_running]
  constructor
  · rintro ⟨b, hb⟩
    obtain ⟨g, hg, hsignal⟩ := Option.bind_eq_some_iff.1 hb
    obtain ⟨d, hd, rfl⟩ := List.mem_map.1 (List.mem_of_getElem? hg)
    exact ⟨d, hd, b.node, hsignal⟩
  · rintro ⟨d, hd, i, hsignal⟩
    obtain ⟨k, hk⟩ := List.getElem?_of_mem hd
    refine ⟨⟨k, i⟩, ?_⟩
    rw [signalOf?, List.getElem?_map, hk]
    exact hsignal

/-- A subscriber is in the table under the signal that its bridge names. -/
theorem mem_subscriberTable_iff {graphs : List Graph} {signal : String} {b : Subscriber} :
    (∃ l, (signal, l) ∈ subscriberTable graphs ∧ b ∈ l) ↔ signalOf? graphs b = some signal := by
  rw [← mem_receivers]
  constructor
  · rintro ⟨l, hl, hb⟩
    rwa [← eq_receivers_of_mem hl]
  · intro hb
    unfold receivers at hb
    cases hfind : (subscriberTable graphs).find? signal with
    | none =>
      rw [hfind] at hb
      cases hb
    | some l =>
      rw [hfind] at hb
      exact ⟨l, Dictionary.mem_of_find?_eq_some hfind, hb⟩

/-- Routing is exact after every sequence of calls. -/
theorem Calls.routing_exact {trace : List (Call H × List HostEntry)} (h₀ : e₀.Fresh)
    (hlog : e₀.world.host.log = []) (h : Calls e₀ trace e) : RoutingExact trace e := by
  have hrouted := h.routed h₀ hlog
  have hsorted := sorted_subscriberTable (summary trace).graphs
  -- every clause reads off one field of the invariant, with the table computed from the graphs
  refine ⟨?_, ?_, ?_, ?_, ?_, ?_, ?_, ?_⟩
  · have hgraphs := hrouted.forall₂_runners
    rwa [Summary.graphs, buildGraphs_running, List.forall₂_map_left_iff] at hgraphs
  · intro signal
    rw [hrouted.registered_eq, hrouted.signals_eq, List.mem_reverse, hrouted.receives_iff]
  · intro signal
    rw [hrouted.table_eq, hrouted.receives_iff]
    exact Iff.rfl
  · intro hobliging signal
    rw [hrouted.subscriptions_iff hobliging, hrouted.receives_iff]
  · rw [hrouted.table_eq]
    exact ⟨hsorted.nodup_keys, nodup_subscribers _⟩
  · intro signal b
    rw [hrouted.table_eq, hrouted.routedSignal?_eq]
    exact mem_subscriberTable_iff
  · intro c entries hload
    rw [h.subscribed_eq h₀ hlog hload]
    exact ⟨(sorted_subscriberTable _).nodup_keys, fun _ => mem_signals_iff⟩
  · intro r hr n hn b henabled hbridge
    exact hrouted.shows hr hn henabled hbridge

/-- A graph is loaded on a host that reports two writes as changes. -/
theorem routing_exact_feedback : ∃ entries e', Calls echoing [(.load feedback, entries)] e' ∧
    entries.length = 5 ∧ RoutingExact [(.load feedback, entries)] e' := by
  have hlog :
      (echoing.call 3 (.load feedback)).map (fun e' => e'.world.host.log.length) = some 5 := by
    decide +kernel
  obtain ⟨e', he', hlength⟩ := Option.map_eq_some_iff.1 hlog
  have hcalls : Calls echoing [(.load feedback, e'.world.host.log)] e' :=
    .snoc (.nil echoing) he' rfl
  exact ⟨_, e', hcalls, hlength, Calls.routing_exact (fresh_new _ rfl) rfl hcalls⟩

end Engine

end SignalGraph
