import SignalGraph.Host.Memory
import SignalGraph.Proofs.Engine.Chronicle
import SignalGraph.Proofs.Engine.Refinement
import SignalGraph.Proofs.Engine.Share

/-!
# Repeated values

A value that the input bridges of its signal show already does nothing when it is delivered once
more: no node is evaluated and the host is not called. All that changes is the number of links that
the graphs reading the signal have followed last, which becomes zero (`Engine.repeated_inert`).
Nothing but a delivery for its own signal changes what an input bridge shows, so it does not matter
what has happened to other signals meanwhile, or how much time has passed.
-/

namespace SignalGraph

/-- The running graph after a value that has started no pass. -/
def Runner.idle (r : Runner) : Runner :=
  { r with lastSteps := 0 }

theorem Graph.reads_iff {g : Graph} {signal : String} :
    (∃ i < g.nodes.size, g.signal? i = some signal) ↔ g.Reads signal := by
  constructor
  · rintro ⟨i, -, hi⟩
    exact ⟨i, hi⟩
  · rintro ⟨i, hi⟩
    obtain ⟨n, hn, -⟩ := Option.bind_eq_some_iff.1 hi
    exact ⟨i, lt_size_of_getElem? hn, hi⟩

instance (g : Graph) (signal : String) : Decidable (g.Reads signal) :=
  decidable_of_iff _ Graph.reads_iff

namespace Engine

variable {H : Type} {e : Engine H}

/-- The engine after bridges have been given values that they show already. -/
def spared (e : Engine H) (subscribers : List Subscriber) : Engine H :=
  { e with
    runners := e.runners.mapIdx fun i r =>
      if ∃ s ∈ subscribers, s.runner = i then r.idle else r }

theorem getElem?_spared (e : Engine H) (subscribers : List Subscriber) (i : Nat) :
    (e.spared subscribers).runners[i]? =
      e.runners[i]?.map fun r => if ∃ s ∈ subscribers, s.runner = i then r.idle else r :=
  Array.getElem?_mapIdx

theorem spared_eq {subscribers : List Subscriber} (runners : Array Runner)
    (h : ∀ i, (e.runners[i]?.map fun r => if ∃ s ∈ subscribers, s.runner = i then r.idle else r) =
      runners[i]?) : e.spared subscribers = { e with runners := runners } := by
  rw [spared]
  congr 1
  exact Array.ext_getElem? fun i => Array.getElem?_mapIdx.trans (h i)

theorem spared_nil (e : Engine H) : e.spared [] = e :=
  spared_eq e.runners fun i => by simp

theorem spared_spared (e : Engine H) (s : Subscriber) (rest : List Subscriber) :
    (e.spared [s]).spared rest = e.spared (s :: rest) := by
  refine spared_eq (e.spared (s :: rest)).runners fun i => ?_
  simp only [getElem?_spared, Option.map_map, List.mem_cons, exists_eq_or_imp, List.not_mem_nil,
    or_false]
  congr 1
  funext r
  by_cases hs : s.runner = i
  · by_cases hrest : ∃ t ∈ rest, t.runner = i <;> simp [hs, hrest, Runner.idle]
  · simp [hs]

theorem spared_singleton {s : Subscriber} {r : Runner} (hr : e.runners[s.runner]? = some r) :
    e.spared [s] = { e with runners := e.runners.setIfInBounds s.runner r.idle } := by
  refine spared_eq _ fun i => ?_
  by_cases hi : s.runner = i
  · subst hi
    rw [getElem?_setIfInBounds_of_some hr, hr, Option.map_some, if_pos ⟨s, by simp⟩]
  · rw [Array.getElem?_setIfInBounds_ne hi]
    simp [hi]

theorem spared_singleton_of_none {s : Subscriber} (hr : e.runners[s.runner]? = none) :
    e.spared [s] = e := by
  refine spared_eq e.runners fun i => ?_
  by_cases hi : s.runner = i
  · -- no graph has this number
    rw [← hi, hr, Option.map_none]
  · simp [hi]

/-- If the subscriber runs, it is a bridge that shows the cast of this value. -/
def Repeats (e : Engine H) (value : Value) (s : Subscriber) : Prop :=
  ∀ r, e.runners[s.runner]? = some r → ∃ n b, r.graph.nodes[s.node]? = some n ∧ n.enabled = true ∧
    n.behavior.inputBridge? = some b ∧ (n.ports.outputAt 0).same (b.cast.apply value) = true

theorem Repeats.spared {value : Value} {s : Subscriber} (h : e.Repeats value s)
    (subscribers : List Subscriber) : (e.spared subscribers).Repeats value s := by
  intro r hr
  rw [getElem?_spared] at hr
  obtain ⟨r₀, hr₀, rfl⟩ := Option.map_eq_some_iff.1 hr
  have hgraph : (if ∃ s' ∈ subscribers, s'.runner = s.runner then r₀.idle else r₀).graph =
      r₀.graph := by
    split <;> rfl
  rw [hgraph]
  exact h r₀ hr₀

variable [Host H]

/-- A value that a bridge shows already. -/
theorem Repeats.perform {value : Value} {s : Subscriber} (h : e.Repeats value s) :
    e.perform ⟨s.runner, .receive s.node value⟩ = e.spared [s] ∧
      e.jobCourse ⟨s.runner, .receive s.node value⟩ = [] := by
  cases hr : e.runners[s.runner]? with
  | none =>
    unfold Engine.perform updateRunner jobCourse
    dsimp only
    rw [hr, spared_singleton_of_none hr]
    exact ⟨rfl, rfl⟩
  | some r =>
    obtain ⟨n, b, hn, henabled, hbridge, hsame⟩ := h r hr
    have hinject : r.inject e.context e.world s.node value = (r.idle, e.world) := by
      simp only [Runner.inject, hn, henabled, hbridge, hsame, if_true]
      rfl
    have hcourse : r.receptionCourse e.context e.world s.node value = [] := by
      simp only [Runner.receptionCourse, hn, henabled, hbridge, hsame, if_true]
    constructor
    · have hperform : r.perform e.context e.world (.receive s.node value) = (r.idle, e.world) :=
        hinject
      rw [Engine.perform, updateRunner_eq hr, spared_singleton hr, hperform]
    · unfold jobCourse
      dsimp only
      rw [hr]
      show (r.receptionCourse e.context e.world s.node value).map _ = []
      rw [hcourse, List.map_nil]

/-- Values that bridges show already. -/
theorem deliveries_spared {value : Value} {subscribers : List Subscriber}
    (h : ∀ s ∈ subscribers, e.Repeats value s) :
    (deliveries subscribers value).foldl Engine.perform e = e.spared subscribers ∧
      e.jobsCourse (deliveries subscribers value) = [] := by
  induction subscribers generalizing e with
  | nil => exact ⟨e.spared_nil.symm, rfl⟩
  | cons s rest ih =>
    obtain ⟨hperform, hcourse⟩ := (h s List.mem_cons_self).perform
    have hrest : ∀ t ∈ rest, (e.spared [s]).Repeats value t :=
      fun t ht => (h t (List.mem_cons_of_mem _ ht)).spared _
    obtain ⟨hperforms, hcourses⟩ := ih hrest
    rw [deliveries, List.map_cons, jobsCourse, foldNotes, List.foldl_cons, hperform, hcourse]
    exact ⟨hperforms.trans (spared_spared e s rest), hcourses⟩

/-! ### Deliveries in a run -/

omit [Host H] in
/-- The last value of a signal is not touched by other signals. -/
theorem lastValues_of_ne {log : List Change} {signal : String}
    (h : ∀ c ∈ log, c.signal ≠ signal) (last : String → Option Value) :
    log.foldl remember last signal = last signal := by
  induction log generalizing last with
  | nil => rfl
  | cons c rest ih =>
    rw [List.foldl_cons, ih fun c' hc' => h c' (List.mem_cons_of_mem _ hc'), remember,
      Function.update_of_ne (h c List.mem_cons_self).symm]

/-- After a value has been delivered for a signal, the bridges show it until the next delivery for
this signal. -/
theorem Reachable.tracks_delivered (h : Reachable e) {signal : String} {v : Value}
    {rest : List Event} (hqueue : e.world.queue = .change ⟨signal, v⟩ :: rest)
    {as : List (Action H)} (has : ∀ a ∈ as, ∀ c, a ≠ .install c)
    (hother : ∀ c ∈ (e.act .turn).delivered as, c.signal ≠ signal) {i : Nat} {r : Runner}
    (hr : ((e.act .turn).run as).runners[i]? = some r) : ∃ c last,
      Tracks (buildGraphs [] c.graphs).1 last ((e.act .turn).run as) ∧ last signal = some v ∧
        Runs c ((e.act .turn).run as) := by
  -- a graph that runs now has been running all the time
  have hsession : ∃ c, ∃ s : Session H c, s.engine = e := by
    by_contra hnone
    have hempty : e.AllRunners fun _ _ => False :=
      fun j r' hr' => hnone (Session.exists_of_reachable h hr')
    have hturn : ∀ a ∈ (.turn :: as : List (Action H)), ∀ c, a ≠ .install c := by
      simpa using has
    exact hempty.run (fun _ => Runner.kept_const False) hturn i r hr
  obtain ⟨c, s, rfl⟩ := hsession
  have hturn : ∀ c, (Action.turn : Action H) ≠ .install c := by simp
  have hruns := (runs_install s.before c).run (kept_runs c) s.not_install
  have hdelivered : s.engine.deliveredBy .turn = [⟨signal, v⟩] := by
    rw [deliveredBy, hqueue]
    rfl
  refine ⟨c, _, (s.tracks.act hturn).run has, ?_,
    (hruns.act (kept_runs c) hturn).run (kept_runs c) has⟩
  rw [lastValues_of_ne hother, hdelivered]
  exact Function.update_self ..

section Receivers

omit [Host H]

variable {c : Configuration} {last : String → Option Value} {signal : String} {i j : Nat}
  {r : Runner}

/-- The receivers of a signal are the bridges that show it. -/
theorem Tracks.mem_receivers_iff (h : Tracks (buildGraphs [] c.graphs).1 last e)
    (hruns : Runs c e) (hr : e.runners[i]? = some r) :
    ⟨i, j⟩ ∈ receivers e.subscribers signal ↔ r.graph.signal? j = some signal := by
  obtain ⟨g, hg, halong⟩ := hruns i r hr
  rw [h.table i r hr, mem_receivers, signalOf?, hg, Option.bind_some, ← signal?_of_along halong]

/-- A receiver of a signal shows the last value of the signal. -/
theorem Tracks.exists_showing (h : Tracks (buildGraphs [] c.graphs).1 last e) (hruns : Runs c e)
    {v : Value} (hlast : last signal = some v) (hr : e.runners[i]? = some r)
    (hs : ⟨i, j⟩ ∈ receivers e.subscribers signal) : ∃ n b, r.graph.nodes[j]? = some n ∧
      n.enabled = true ∧ n.behavior.inputBridge? = some b ∧ b.signal = signal ∧
        (n.ports.outputAt 0).same (b.cast.apply v) = true := by
  obtain ⟨n, hn, hshown⟩ := Option.bind_eq_some_iff.1 ((h.mem_receivers_iff hruns hr).1 hs)
  rw [Node.signal?, Option.ite_none_right_eq_some] at hshown
  obtain ⟨b, hbridge, hb⟩ := Option.map_eq_some_iff.1 hshown.2
  have hheard : heard (buildGraphs [] c.graphs).1 last ⟨i, j⟩ = some v := by
    rw [h.table i r hr, mem_receivers] at hs
    rw [heard, hs, Option.bind_some, hlast]
  have hshows := (h.shows i r hr j n hn).output b hshown.1 hbridge
  dsimp only at hshows
  rw [hheard] at hshows
  exact ⟨n, b, hn, hshown.1, hbridge, hb, hshows⟩

/-- The graphs with a receiver of a signal are those that read it. -/
theorem spared_receivers (hreceivers : ∀ (i j : Nat) r, e.runners[i]? = some r →
      (⟨i, j⟩ ∈ receivers e.subscribers signal ↔ r.graph.signal? j = some signal)) :
    e.spared (receivers e.subscribers signal) =
      { e with runners := e.runners.map fun r => if r.graph.Reads signal then r.idle else r } := by
  refine spared_eq _ fun i => ?_
  rw [Array.getElem?_map]
  cases hr : e.runners[i]? with
  | none => rfl
  | some r =>
    have hreads : (∃ s ∈ receivers e.subscribers signal, s.runner = i) ↔ r.graph.Reads signal := by
      constructor
      · rintro ⟨s, hs, rfl⟩
        exact ⟨s.node, (hreceivers _ _ r hr).1 hs⟩
      · rintro ⟨j, hj⟩
        exact ⟨⟨i, j⟩, (hreceivers i j r hr).2 hj, rfl⟩
    rw [Option.map_some, Option.map_some]
    simp only [hreads]

end Receivers

/-- A change whose value is the same as the last one of its signal, as far as the input bridges see,
changes nothing but the numbers of links followed last, and nothing happens to any node. -/
theorem repeated_inert (h : Reachable e) {signal : String} {v w : Value} {rest rest' : List Event}
    {as : List (Action H)} (hqueue : e.world.queue = .change ⟨signal, v⟩ :: rest)
    (has : ∀ a ∈ as, (∀ c, a ≠ .install c) ∧ a ≠ .stop)
    (hother : ∀ c ∈ (e.act .turn).delivered as, c.signal ≠ signal)
    (hqueue' : ((e.act .turn).run as).world.queue = .change ⟨signal, w⟩ :: rest')
    (hsame : ∀ r ∈ ((e.act .turn).run as).runners, ∀ n ∈ r.graph.nodes, ∀ b, n.enabled = true →
      n.behavior.inputBridge? = some b → b.signal = signal →
      (b.cast.apply v).same (b.cast.apply w) = true) :
    ((e.act .turn).run as).act .turn =
        { ((e.act .turn).run as).withQueue rest' with
          runners := ((e.act .turn).run as).runners.map fun r =>
            if r.graph.Reads signal then r.idle else r } ∧
      ((e.act .turn).run as).actionCourse .turn = [] := by
  have hknown := fun (i : Nat) (r : Runner) =>
    h.tracks_delivered hqueue (fun a ha => (has a ha).1) hother (i := i) (r := r)
  -- all that matters of the actions in between is what `hknown` says of their end
  generalize (e.act .turn).run as = e' at hqueue' hsame hknown ⊢
  have hreceivers : ∀ (i j : Nat) r, (e'.withQueue rest').runners[i]? = some r →
      (⟨i, j⟩ ∈ receivers (e'.withQueue rest').subscribers signal ↔
        r.graph.signal? j = some signal) := by
    intro i j r hr
    obtain ⟨c, last, htracks, -, hruns⟩ := hknown i r hr
    exact htracks.mem_receivers_iff hruns hr
  -- every receiver shows what the last value casts to, which is the same as what this one casts to
  have hrepeats : ∀ s ∈ receivers e'.subscribers signal, (e'.withQueue rest').Repeats w s := by
    intro s hs r hr
    obtain ⟨c, last, htracks, hlast, hruns⟩ := hknown s.runner r hr
    obtain ⟨n, b, hn, henabled, hbridge, hb, hshows⟩ := htracks.exists_showing hruns hlast hr hs
    refine ⟨n, b, hn, henabled, hbridge, Value.same_trans hshows ?_⟩
    exact hsame r (Array.mem_of_getElem? hr) n (Array.mem_of_getElem? hn) b henabled hbridge hb
  obtain ⟨hperform, hcourse⟩ := deliveries_spared hrepeats
  constructor
  · have hturn : e'.act .turn = (e'.withQueue rest').handle (.change ⟨signal, w⟩) := by
      rw [act, turn?, hqueue']
      rfl
    rw [hturn, handle_eq]
    exact hperform.trans (spared_receivers hreceivers)
  · rw [actionCourse, hqueue']
    exact hcourse

/-- A bridge feeds a negation, and its signal is true. -/
def informed : Engine MemoryHost :=
  (new default { start := default }).run
    [.install Session.inverted, .post (.change ⟨"x", .bool true⟩)]

/-- Another signal changes, and then the first one is reported once more, as a text. -/
def insistent : List (Action MemoryHost) :=
  [.post (.change ⟨"y", .bool true⟩), .turn, .post (.change ⟨"x", .str "true"⟩)]

/-- The text is cast to the value that the bridge shows, and the pass of the graph is empty. -/
theorem repeated_inert_informed :
    (((informed.act .turn).run insistent).act .turn).runners[0]?.map Runner.lastSteps = some 0 ∧
      ((informed.act .turn).run insistent).actionCourse .turn = [] := by
  have hreachable : Reachable informed := (Reachable.fresh (fresh_new _ rfl)).run _
  have hactions : ∀ a ∈ insistent, (∀ c, a ≠ .install c) ∧ a ≠ .stop := by simp [insistent]
  have hdelivered : (informed.act .turn).delivered insistent = [⟨"y", .bool true⟩] := by
    with_unfolding_all rfl
  have hsame : ((informed.act .turn).run insistent).runners.all (fun r => r.graph.nodes.all fun n =>
      n.behavior.inputBridge?.all fun b =>
        (b.cast.apply (.bool true)).same (b.cast.apply (.str "true"))) = true := by
    decide +kernel
  simp only [Array.all_eq_true', Option.all_eq_true] at hsame
  have hqueue : informed.world.queue = [.change ⟨"x", .bool true⟩] := by with_unfolding_all rfl
  have hqueue' : ((informed.act .turn).run insistent).world.queue =
      [.change ⟨"x", .str "true"⟩] := by
    with_unfolding_all rfl
  obtain ⟨hturn, hcourse⟩ := repeated_inert hreachable hqueue hactions (by simp [hdelivered])
    hqueue' fun r hr n hn b _ hb _ => hsame r hr n hn b hb
  refine ⟨?_, hcourse⟩
  rw [hturn]
  decide +kernel

end Engine

end SignalGraph
