import SignalGraph.Proofs.Engine.Run
import SignalGraph.Proofs.Engine.Subscribers

/-!
# Values that are delivered

Since the load, an input bridge shows the cast of the last value that was delivered for its signal
(`Engine.Tracks`). Values are delivered by the load, which reads the current value of each signal
(`Engine.initialChanges`), and by the changes that are handled afterwards (`Engine.delivered`).
`Engine.tracks_install` and `Tracks.run` follow the log of both.

Giving a value to a node makes it show that value (`Runner.InjectOutcome.shows`), and whatever else
happens in the graph leaves what its bridges show alone (`Graph.Shows.along`).
-/

namespace SignalGraph

/-! ### One graph -/

/-- Every enabled input bridge shows the last value that it was given. -/
def Graph.Shows (g : Graph) (last : Nat → Option Value) : Prop :=
  ∀ (i : Nat) n, g.nodes[i]? = some n → n.Shows (last i)

namespace Graph

variable {g g' : Graph} {last : Nat → Option Value} {i : Nat}

/-- What goes on in a graph leaves its bridges alone. -/
theorem Shows.along (h : g.Shows last) (halong : g.Along Node.Work g') : g'.Shows last :=
  halong.forall_nodes (P := fun i n => n.Shows (last i)) (fun hwork hn => hn.work hwork) h

/-- Another node in place of node `i` shows a new value. -/
theorem Shows.update {value : Option Value} (h : g.Shows last)
    (hother : ∀ j, i ≠ j → g'.nodes[j]? = g.nodes[j]?)
    (hi : ∀ n, g'.nodes[i]? = some n → n.Shows value) :
    g'.Shows (Function.update last i value) := by
  intro j n hn
  by_cases hij : i = j
  · subst hij
    rw [Function.update_self]
    exact hi n hn
  · rw [Function.update_of_ne (Ne.symm hij)]
    rw [hother j hij] at hn
    exact h j n hn

theorem Fresh.shows (h : g.Fresh) : g.Shows fun _ => none := by
  intro i n hn
  have hfresh := h.nodes i n hn
  refine ⟨hfresh.fits, ?_⟩
  intro b _ _
  rw [hfresh.outputAt_eq]
  rfl

end Graph

/-- A node that is given a value shows it from then on. -/
theorem Runner.InjectOutcome.shows {H : Type} [Host H] {ctx : LoadContext} {r : Runner}
    {w : World H} {i : Nat} {value : Value} {o : Runner × World H} {last : Nat → Option Value}
    (ho : r.InjectOutcome ctx w i value o) (h : r.graph.Shows last) :
    o.1.graph.Shows (Function.update last i (some value)) := by
  cases ho with
  | ignored hnone =>
    -- node `i` shows nothing, so nothing has to be known about its last value
    refine h.update (fun _ _ => rfl) ?_
    intro n hn
    refine ⟨(h i n hn).fits, ?_⟩
    intro b henabled hb
    rw [hnone n hn henabled] at hb
    cases hb
  | @unchanged n b hn henabled hbridge hsame =>
    refine h.update (fun _ _ => rfl) ?_
    intro m hm
    obtain rfl : n = m := Option.some.inj (hn.symm.trans hm)
    refine ⟨(h i n hn).fits, ?_⟩
    intro b' _ hb'
    obtain rfl : b = b' := Option.some.inj (hbridge.symm.trans hb')
    exact hsame
  | @shown n b hn henabled hbridge =>
    -- the node shows the value before the pass, and the pass leaves it alone
    have hshown : (r.graph.replace i (n.showing (b.cast.apply value))).Shows
        (Function.update last i (some value)) := by
      refine h.update (fun j hij => Graph.getElem?_replace_ne hij) ?_
      intro m hm
      rw [Graph.getElem?_replace_self hn] at hm
      cases hm
      exact (h i n hn).showing hbridge henabled
    exact hshown.along (along_pass r ⟨_, w⟩ _)

/-- The change that an event brings. -/
def Event.change? : Event → Option Change
  | .change c => some c
  | .timer _ => none

namespace Engine

variable {H : Type} {e : Engine H} {graphs : List Graph} {given : Subscriber → Option Value}
  {last : String → Option Value}

/-! ### All graphs -/

/-- Every input bridge of the running graphs shows the last value that it was given. -/
def Shows (e : Engine H) (given : Subscriber → Option Value) : Prop :=
  e.AllRunners fun i r => r.graph.Shows fun j => given ⟨i, j⟩

/-- The last value that each bridge was given, if all values of its signal reach it. -/
def heard (graphs : List Graph) (last : String → Option Value) (s : Subscriber) : Option Value :=
  (signalOf? graphs s).bind last

/-- The last values after one more change. -/
def remember (last : String → Option Value) (c : Change) : String → Option Value :=
  Function.update last c.signal (some c.value)

/-- The last value of each signal in a log. -/
def lastValues (log : List Change) : String → Option Value :=
  log.foldl remember fun _ => none

variable [Host H]

theorem Shows.inject (h : e.Shows given) (value : Value) (s : Subscriber) :
    (e.inject value s).Shows (Function.update given s (some value)) := by
  have hsubscriber : ∀ i j, (⟨i, j⟩ : Subscriber) = s ↔ i = s.runner ∧ j = s.node := by
    intro i j
    obtain ⟨i', j'⟩ := s
    exact Subscriber.mk.injEq i j i' j' ▸ Iff.rfl
  refine AllRunners.update ?_ ?_ h
  · intro r w hr
    have hshown := (Runner.inject_outcome e.context r w s.node value).shows hr
    convert hshown using 1
    ext j : 1
    simp only [Function.update_apply, hsubscriber, true_and]
  · intro i r hi hr
    convert hr using 1
    ext j : 1
    have hne : (⟨i, j⟩ : Subscriber) ≠ s := by
      rw [Ne, hsubscriber]
      exact fun heq => hi heq.1.symm
    rw [Function.update_of_ne hne]

theorem Shows.injectAll (h : e.Shows given) (subscribers : List Subscriber) (value : Value) :
    (e.injectAll subscribers value).Shows
      fun s => if s ∈ subscribers then some value else given s := by
  induction subscribers generalizing e given with
  | nil => exact h
  | cons s rest ih =>
    have hgiven : (fun t => if t ∈ s :: rest then some value else given t) =
        fun t => if t ∈ rest then some value else Function.update given s (some value) t := by
      ext t : 1
      -- a bridge that stands in the list twice is given the same value twice
      by_cases hrest : t ∈ rest
      · rw [if_pos hrest, if_pos (List.mem_cons_of_mem _ hrest)]
      · simp only [List.mem_cons, hrest, or_false, if_false, Function.update_apply]
    rw [hgiven]
    exact ih (h.inject value s)

/-- A value that is given to all receivers of its signal is the last one that its bridges heard. -/
theorem Shows.deliver (h : e.Shows (heard graphs last)) (c : Change) :
    (e.injectAll (receivers (subscriberTable graphs) c.signal) c.value).Shows
      (heard graphs (remember last c)) := by
  have hdelivered := h.injectAll (receivers (subscriberTable graphs) c.signal) c.value
  convert hdelivered using 1
  ext s : 1
  simp only [mem_receivers, heard, remember]
  cases hs : signalOf? graphs s with
  | none => simp
  | some signal =>
    by_cases hsignal : signal = c.signal
    · subst hsignal
      simp
    · simp [hsignal]

theorem Shows.prime (h : e.Shows given) (i : Nat) : (e.primeRunner i).Shows given :=
  AllRunners.update (fun {r} w hr => hr.along (Runner.along_prime e.context r w)) (fun _ hr => hr) h

/-! ### The log -/

/-- The values that a load delivers for the signals of a table, each as soon as it is subscribed
to. -/
def connected (e : Engine H) : Dictionary (List Subscriber) → List Change
  | [] => []
  | entry :: rest =>
    ((e.initialValue? entry.1).map fun value => ⟨entry.1, value⟩).toList ++
      (e.connect entry).connected rest

/-- The values that a load delivers. -/
def initialChanges (e : Engine H) (c : Configuration) : List Change :=
  (e.assemble c).connected (subscriberTable (buildGraphs [] c.graphs).1)

/-- The change that an action delivers. -/
def deliveredBy (e : Engine H) : Action H → List Change
  | .turn => (e.world.queue.head?.bind Event.change?).toList
  | _ => []

/-- The changes that a run delivers, in order. -/
def delivered (e : Engine H) : List (Action H) → List Change
  | [] => []
  | a :: rest => e.deliveredBy a ++ (e.act a).delivered rest

/-! ### Signals -/

omit [Host H] in
theorem subscribers_updateRunner (e : Engine H) (i : Nat)
    (f : Runner → World H → Runner × World H) :
    (e.updateRunner i f).subscribers = e.subscribers := by
  unfold updateRunner
  split <;> rfl

theorem closed_subscribers (table : Dictionary (List Subscriber)) :
    Closed fun e : Engine H => e.subscribers = table where
  inject _ _ h := (subscribers_updateRunner _ _ _).trans h
  prime _ h := (subscribers_updateRunner _ _ _).trans h
  quiet _ h := h

/-- A change that is handled is given to the receivers of its signal. -/
theorem handle_change_eq (e : Engine H) (c : Change) :
    e.handle (.change c) = e.injectAll (receivers e.subscribers c.signal) c.value := by
  unfold handle receivers
  dsimp only
  cases e.subscribers.find? c.signal <;> rfl

theorem subscribers_handle (e : Engine H) (event : Event) :
    (e.handle event).subscribers = e.subscribers := by
  cases event with
  | change c => exact (closed_subscribers e.subscribers).handle_change c rfl
  | timer fire =>
    unfold handle
    dsimp only
    split
    · rfl
    · split
      · exact subscribers_updateRunner _ _ _
      · rfl

/-- While graphs run, values reach the bridges of their signals, and the bridges show the last
ones. -/
structure Tracks (graphs : List Graph) (last : String → Option Value) (e : Engine H) : Prop where
  table : e.AllRunners fun _ _ => e.subscribers = subscriberTable graphs
  shows : e.Shows (heard graphs last)

theorem shows_assemble (e : Engine H) (c : Configuration) :
    (e.assemble c).Shows (heard (buildGraphs [] c.graphs).1 fun _ => none) := by
  refine AllRunners.assemble fun i g hg => ?_
  have hshows := (fresh_of_mem_buildGraphs (List.mem_of_getElem? hg)).1.shows
  convert hshows using 1
  ext j : 1
  exact Option.bind_fun_none _

theorem Shows.connect (h : e.Shows (heard graphs last)) {entry : String × List Subscriber}
    (hentry : entry ∈ subscriberTable graphs) : (e.connect entry).Shows (heard graphs
      (((e.initialValue? entry.1).map fun value => ⟨entry.1, value⟩).toList.foldl remember
        last)) := by
  rw [connect_eq]
  cases e.initialValue? entry.1 with
  | none => exact h
  | some value =>
    rw [eq_receivers_of_mem hentry]
    exact Shows.deliver (e := e.subscribed entry.1) h ⟨entry.1, value⟩

theorem Shows.connectAll {table : Dictionary (List Subscriber)}
    (htable : ∀ entry ∈ table, entry ∈ subscriberTable graphs) (h : e.Shows (heard graphs last)) :
    (table.foldl Engine.connect e).Shows
      (heard graphs ((e.connected table).foldl remember last)) := by
  induction table generalizing e last with
  | nil => exact h
  | cons entry rest ih =>
    have hfirst := h.connect (htable entry List.mem_cons_self)
    rw [connected, List.foldl_append]
    exact ih (fun other hother => htable other (List.mem_cons_of_mem _ hother)) hfirst

/-- After a load, bridges show the values that the load found. -/
theorem tracks_install (e : Engine H) (c : Configuration) :
    Tracks (buildGraphs [] c.graphs).1 (lastValues (e.initialChanges c)) (e.install c).2 where
  table := fun _ _ _ => (closed_subscribers _).install rfl
  shows := by
    have hconnected := (shows_assemble e c).connectAll fun _ h => h
    rw [install_eq]
    refine List.foldlRecOn (motive := fun e : Engine H => e.Shows _) _ _ hconnected ?_
    exact fun _ hshows i _ => hshows.prime i

/-- The graphs work on, and the bridges show the value that the event brings. -/
theorem Tracks.handle (h : Tracks graphs last e) (event : Event) :
    Tracks graphs (event.change?.toList.foldl remember last) (e.handle event) := by
  have htable : (e.handle event).AllRunners fun _ _ => e.subscribers = subscriberTable graphs :=
    AllRunners.handle (fun _ => Runner.kept_const _) event h.table
  constructor
  · intro i r hr
    rw [subscribers_handle]
    exact htable i r hr
  · intro i r hr
    have hsubscribers := htable i r hr
    cases event with
    | change c =>
      rw [handle_change_eq, hsubscribers] at hr
      exact h.shows.deliver c i r hr
    | timer fire =>
      refine AllRunners.handle_timer fire ?_ h.shows i r hr
      intro i r w hshows
      have halong := (Runner.onTimer_outcome e.context r w fire).along
      exact hshows.along halong

/-- An action that loads nothing makes bridges show what it delivers. -/
theorem Tracks.act (h : Tracks graphs last e) {a : Action H} (ha : ∀ c, a ≠ .install c) :
    Tracks graphs ((e.deliveredBy a).foldl remember last) (e.act a) := by
  cases a with
  | install c => exact (ha c rfl).elim
  | stop => exact ⟨AllRunners.stop e, AllRunners.stop e⟩
  | post | outside => exact ⟨h.table, h.shows⟩
  | turn =>
    show Tracks graphs _ (e.turn?.getD e)
    unfold turn? deliveredBy
    cases e.world.queue with
    | nil => exact h
    | cons event rest =>
      have hwaiting : Tracks graphs last (e.withQueue rest) := ⟨h.table, h.shows⟩
      exact hwaiting.handle event

theorem Tracks.run (h : Tracks graphs last e) {as : List (Action H)}
    (has : ∀ a ∈ as, ∀ c, a ≠ .install c) :
    Tracks graphs ((e.delivered as).foldl remember last) (e.run as) := by
  induction as generalizing e last with
  | nil => exact h
  | cons a rest ih =>
    have hact := h.act (has a List.mem_cons_self)
    rw [delivered, List.foldl_append]
    exact ih hact fun b hb => has b (List.mem_cons_of_mem _ hb)

end Engine

end SignalGraph
