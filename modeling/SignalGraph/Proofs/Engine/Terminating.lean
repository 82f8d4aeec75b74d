import SignalGraph.Host.Recording
import SignalGraph.Proofs.Engine.Prompt
import SignalGraph.Proofs.Engine.Requests

/-!
# Letting time pass comes to an end

While time passes, the engine makes one move after the other: it handles an event that waits or lets
the next timer fire (`Engine.move?`). A timer may be due at the very moment at which it is armed, so
neither the clock nor the number of timers tells that this ends. `Engine.outlook` does: the time
that is left, the events that wait, and the timers that are due, each by its height, the number of
nodes to which links lead from its node. Moves in which the host reports nothing lower it
(`Engine.outlook_move?_lt`), so letting time pass comes to an end if the host reports changes only
finitely often (`Engine.advance_terminates`).
-/

namespace SignalGraph

namespace Graph

/-! ### Heights -/

open Classical in
/-- The number of nodes to which chains of links lead from node `i`. -/
noncomputable def height (g : Graph) (i : Nat) : Nat :=
  ((Finset.range g.nodes.size).filter fun j => Relation.TransGen g.Feeds i j).card

/-- Without cycles, a node is higher than those to which links lead from it. -/
theorem Acyclic.height_lt {g : Graph} (ha : g.Acyclic) {i j : Nat} {n : Node}
    (hij : Relation.TransGen g.Feeds i j) (hn : g.nodes[j]? = some n) :
    g.height j < g.height i := by
  classical
  refine Finset.card_lt_card (Finset.ssubset_iff_of_subset ?_ |>.2 ⟨j, ?_, ?_⟩)
  · intro k hk
    rw [Finset.mem_filter] at hk ⊢
    exact ⟨hk.1, hij.trans hk.2⟩
  · rw [Finset.mem_filter, Finset.mem_range]
    exact ⟨lt_size_of_getElem? hn, hij⟩
  · rw [Finset.mem_filter]
    exact fun hj => ha j hj.2

/-- No enabled node has timers of length zero. -/
def Patient (g : Graph) : Prop :=
  ∀ (i : Nat) n, g.nodes[i]? = some n → n.enabled = true →
    ∀ length, n.behavior.length? = some length → 1 ≤ length

/-- Being without cycles or without timers of length zero is a matter of the links and the plans. -/
theorem Along.finishing {g g' : Graph} (halong : g.Along Node.Step g')
    (h : g'.Acyclic ∨ g'.Patient) : g.Acyclic ∨ g.Patient := by
  refine h.imp (fun ha => ha.congr halong.links_eq.symm) fun hp i n hn henabled length hlength => ?_
  obtain ⟨n', hn', -⟩ := halong.exists_node hn
  have hplan := halong.plan_eq hn hn'
  have henabled' : n'.enabled = n.enabled := congrArg Node.Plan.enabled hplan
  have hparameters : n'.behavior.parameters = n.behavior.parameters :=
    congrArg Node.Plan.parameters hplan
  refine hp i n' hn' (henabled'.trans henabled) length ?_
  rw [← Behavior.length?_parameters, hparameters, Behavior.length?_parameters, hlength]

/-- The height of the node that a fire addresses, among these graphs. -/
noncomputable def heightIn (graphs : List Graph) (fire : Fire) : Nat :=
  ((graphs.find? fun g => g.id == fire.graph).bind fun g =>
    (g.indexOf? fire.node).map g.height).getD 0

theorem heightIn_eq {graphs : List Graph} (hids : (graphs.map Graph.id).Nodup) {g : Graph}
    (hg : g ∈ graphs) (hs : g.Sound) {i : Nat} {n : Node} (hn : g.nodes[i]? = some n) {fire : Fire}
    (hgraph : fire.graph = g.id) (hnode : fire.node = n.id) :
    heightIn graphs fire = g.height i := by
  have hfind : graphs.find? (fun g => g.id == fire.graph) = some g := by
    have hsome : (graphs.find? fun g => g.id == fire.graph).isSome = true :=
      List.find?_isSome.2 ⟨g, hg, beq_iff_eq.2 hgraph.symm⟩
    obtain ⟨g', hg'⟩ := Option.isSome_iff_exists.1 hsome
    have hid : g'.id = fire.graph := by simpa using List.find?_some hg'
    rw [hg', List.inj_on_of_nodup_map hids (List.mem_of_find?_eq_some hg') hg (hid.trans hgraph)]
  rw [heightIn, hfind, Option.bind_some, hnode, hs.indexOf?_id hn, Option.map_some,
    Option.getD_some]

/-- What lies below a node is lower, unless the graph has cycles and all its timers take time. -/
theorem Below.heightIn_lt {graphs : List Graph} (hids : (graphs.map Graph.id).Nodup) {g : Graph}
    (hg : g ∈ graphs) (hs : g.Sound) (hfinishing : g.Acyclic ∨ g.Patient) {i : Nat} {n : Node}
    (hn : g.nodes[i]? = some n) {fire x : Fire} (hgraph : fire.graph = g.id)
    (hnode : fire.node = n.id) (hx : g.Below i x) : heightIn graphs x < heightIn graphs fire := by
  obtain ⟨hgraph', j, m, hreach, hm, hnode', henabled, hlength⟩ := hx
  rcases hfinishing with ha | hp
  · rw [heightIn_eq hids hg hs hn hgraph hnode, heightIn_eq hids hg hs hm hgraph' hnode']
    exact ha.height_lt hreach hm
  · exact absurd (hp j m hm henabled 0 hlength) (by omega)

end Graph

namespace Engine

variable {H : Type} [Host H] {e e' : Engine H} {target : Nat}

/-! ### Moves -/

/-- The next thing that the engine does while time passes until `target`: it handles the first event
that waits or, if none waits, lets the first timer fire that is due. -/
def move? (target : Nat) (e : Engine H) : Option (Engine H) :=
  match e.turn? with
  | some e' => some e'
  | none => (e.world.timeline.popDue? target).map fun (fire, t) =>
    handle { e with world := e.world.withTimeline t } (.timer fire)

/-- The engine after so many moves, if there are that many. -/
def moves? (target : Nat) : Nat → Engine H → Option (Engine H)
  | 0, e => some e
  | n + 1, e => (e.move? target).bind (moves? target n)

/-- The host has reported changes during a move from `e` to `e'` that were accepted: the queue is
not what the move itself leaves of it. -/
def Reenters (e e' : Engine H) : Prop :=
  e'.world.queue ≠ e.world.queue.tail

/-- The host re-enters the engine only finitely often while time passes until `target`: no move does
so any more from some move on. -/
def FinitelyReentered (target : Nat) (e : Engine H) : Prop :=
  ∃ N, ∀ n, N ≤ n → ∀ e₁ e₂, e.moves? target n = some e₁ → e₁.move? target = some e₂ →
    ¬ e₁.Reenters e₂

/-- The ways a move can go. -/
inductive MoveOutcome (target : Nat) (e : Engine H) : Engine H → Prop
  | turn {event : Event} {rest : List Event} (hqueue : e.world.queue = event :: rest) :
    MoveOutcome target e ((e.withQueue rest).handle event)
  | fire {fire : Fire} {t : Timeline Fire} (hqueue : e.world.queue = [])
    (hpop : e.world.timeline.popDue? target = some (fire, t)) :
    MoveOutcome target e (handle { e with world := e.world.withTimeline t } (.timer fire))

theorem move?_outcome (h : e.move? target = some e') : e.MoveOutcome target e' := by
  unfold move? at h
  cases hturn : e.turn? with
  | some e'' =>
    rw [hturn] at h
    cases h
    obtain ⟨event, rest, hqueue, rfl⟩ := turn?_eq_some hturn
    exact .turn hqueue
  | none =>
    rw [hturn] at h
    obtain ⟨⟨fire, t⟩, hpop, rfl⟩ := Option.map_eq_some_iff.1 h
    exact .fire (turn?_eq_none_iff.1 hturn) hpop

theorem moves?_add (target n m : Nat) (e : Engine H) :
    e.moves? target (n + m) = (e.moves? target n).bind (moves? target m) := by
  induction n generalizing e with
  | zero =>
    rw [Nat.zero_add]
    rfl
  | succ n ih =>
    rw [Nat.succ_add, moves?, moves?, Option.bind_assoc]
    exact congrArg _ (funext ih)

/-- A move takes the engine from one reachable state to another. -/
theorem Reachable.move? (h : Reachable e) (hmove : e.move? target = some e') : Reachable e' := by
  cases move?_outcome hmove with
  | @turn event rest hqueue =>
    have hturn : e.turn? = some ((e.withQueue rest).handle event) := by
      unfold turn?
      rw [hqueue]
      rfl
    exact act_turn hturn ▸ h.act .turn
  | fire hqueue hpop => exact act_turn (turn?_ringing hqueue) ▸ (h.run _).act .turn

/-! ### Every move brings the engine nearer to rest -/

/-- The running graph with number `i` is that of a configuration, and nothing in it can be due at
once again and again. -/
def Finishes (c : Configuration) (i : Nat) (r : Runner) : Prop :=
  ∃ g, (buildGraphs [] c.graphs).1[i]? = some g ∧ g.Along Node.Step r.graph ∧
    (g.Acyclic ∨ g.Patient)

theorem kept_finishes (c : Configuration) (i : Nat) : Runner.Kept H (Finishes c i) :=
  Runner.kept_exists fun g =>
    (Runner.kept_const _).and ((Runner.kept_along g).and (Runner.kept_const _))

theorem finishes_move? {c : Configuration} (h : e.AllRunners (Finishes c))
    (hmove : e.move? target = some e') : e'.AllRunners (Finishes c) := by
  have hhandle : ∀ {e : Engine H} event, e.AllRunners (Finishes c) →
      (e.handle event).AllRunners (Finishes c) :=
    fun event he => AllRunners.handle (kept_finishes c) event he
  cases move?_outcome hmove with
  | turn | fire => exact hhandle _ h

/-- What is left to do while time passes until `target`: the time, the events that wait, and the
timers that are due, each by the height of its node. -/
noncomputable def outlook (c : Configuration) (target : Nat) (e : Engine H) :
    Nat × Nat × Multiset Nat :=
  (target - e.world.timeline.elapsed, e.world.queue.length,
    e.world.timeline.due.map (Graph.heightIn (buildGraphs [] c.graphs).1))

/-- Time comes first, then the events, then the timers, of which each may be replaced by any number
of lower ones. -/
def Nearer : Nat × Nat × Multiset Nat → Nat × Nat × Multiset Nat → Prop :=
  Prod.Lex (· < ·) (Prod.Lex (· < ·) Multiset.IsDershowitzMannaLT)

theorem wellFounded_nearer : WellFounded Nearer :=
  WellFounded.prod_lex wellFounded_lt
    (WellFounded.prod_lex wellFounded_lt Multiset.wellFounded_isDershowitzMannaLT)

omit [Host H] in
/-- What lies below the node that a fire addresses is lower than the fire. -/
theorem heightIn_lt_of_below {c : Configuration} (h : e.AllRunners (Finishes c)) {k i : Nat}
    {r : Runner} (hr : e.runners[k]? = some r) {fire x : Fire} (hgraph : r.graph.id = fire.graph)
    (hindex : r.graph.indexOf? fire.node = some i) (hx : r.graph.Below i x) :
    Graph.heightIn (buildGraphs [] c.graphs).1 x <
      Graph.heightIn (buildGraphs [] c.graphs).1 fire := by
  obtain ⟨g, hg, halong, hfinishing⟩ := h k r hr
  have hmem := List.mem_of_getElem? hg
  obtain ⟨n', hn', hid⟩ := Graph.exists_node_of_indexOf? hindex
  obtain ⟨n, hn, -⟩ := halong.exists_origin hn'
  have hnode : fire.node = n.id := by
    rw [← hid]
    exact congrArg Node.Plan.id (halong.plan_eq hn hn')
  exact (hx.of_along halong).heightIn_lt (nodup_ids_buildGraphs [] c.graphs) hmem
    (fresh_of_mem_buildGraphs hmem).1.sound hfinishing hn (hgraph.symm.trans halong.id_eq) hnode

/-- A move in which the host reports nothing leaves less to do. -/
theorem outlook_move?_lt {c : Configuration} (hreach : Reachable e) (h : e.AllRunners (Finishes c))
    (hmove : e.move? target = some e') (hquiet : ¬ e.Reenters e') :
    Nearer (e'.outlook c target) (e.outlook c target) := by
  have hqueue' : e'.world.queue = e.world.queue.tail := not_not.1 hquiet
  unfold outlook
  rw [hqueue']
  cases move?_outcome hmove with
  | @turn event rest hqueue =>
    have helapsed : ((e.withQueue rest).handle event).world.timeline.elapsed =
        e.world.timeline.elapsed := (sameTimes_handle (e.withQueue rest) event).timeline.elapsed_eq
    rw [helapsed, hqueue]
    exact .right _ (.left _ _ (Nat.lt_succ_self _))
  | @fire fire t hqueue hpop =>
    let popped : Engine H := { e with world := e.world.withTimeline t }
    have htimeline : popped.world.timeline = t := World.timeline_withTimeline e.world t
    have hprompts : World.Prompts (fun x => Graph.heightIn (buildGraphs [] c.graphs).1 x <
        Graph.heightIn (buildGraphs [] c.graphs).1 fire) popped.world
        (popped.handle (.timer fire)).world :=
      prompts_handle_timer hreach.keyed fun k r i hr hgraph hindex x hx =>
        heightIn_lt_of_below h hr hgraph hindex hx
    obtain ⟨helapsed, added, hadded, hle⟩ := hprompts
    rw [htimeline] at helapsed hle
    rw [helapsed]
    rcases Timeline.due_popDue? hpop with ⟨hstands, hdue⟩ | ⟨hmoves, htarget⟩
    · -- the clock stands still, and what is due instead of the timer is lower
      rw [hstands, hqueue, hdue, Multiset.map_cons]
      have hlower : ∀ b ∈ added.map (Graph.heightIn (buildGraphs [] c.graphs).1),
          b < Graph.heightIn (buildGraphs [] c.graphs).1 fire := by
        intro b hb
        obtain ⟨x, hx, rfl⟩ := Multiset.mem_map.1 hb
        exact hadded x hx
      refine .right _ (.right _ (isDershowitzMannaLT_cons hlower ?_))
      rw [← Multiset.map_add]
      exact Multiset.map_le_map hle
    · exact .left _ _ (by omega)

/-! ### Coming to rest -/

/-- The moves come to an end. -/
inductive ComesToRest (target : Nat) : Engine H → Prop
  | rest {e : Engine H} (hnone : e.move? target = none) : ComesToRest target e
  | move {e e' : Engine H} (hmove : e.move? target = some e') (h : ComesToRest target e') :
    ComesToRest target e

theorem moves?_succ (hmove : e.move? target = some e') (n : Nat) :
    e.moves? target (n + 1) = e'.moves? target n := by
  rw [moves?, hmove, Option.bind_some]

/-- Without re-entries, the moves come to an end. -/
theorem comesToRest_of_quiet {c : Configuration} (hreach : Reachable e)
    (h : e.AllRunners (Finishes c)) (hquiet : ∀ n e₁ e₂, e.moves? target n = some e₁ →
      e₁.move? target = some e₂ → ¬ e₁.Reenters e₂) : ComesToRest target e := by
  -- the induction is on what is left to do, which each move lowers
  induction houtlook : e.outlook c target using wellFounded_nearer.induction generalizing e with
  | _ left ih =>
  cases hmove : e.move? target with
  | none => exact .rest hmove
  | some e' =>
    have hnearer := outlook_move?_lt hreach h hmove (hquiet 0 e e' rfl hmove)
    refine .move hmove
      (ih _ (houtlook ▸ hnearer) (hreach.move? hmove) (finishes_move? h hmove) ?_ rfl)
    intro n e₁ e₂ h₁
    exact hquiet (n + 1) e₁ e₂ ((moves?_succ hmove n).trans h₁)

/-- The moves come to an end if only finitely many of them re-enter the engine. -/
theorem comesToRest {c : Configuration} (hreach : Reachable e) (h : e.AllRunners (Finishes c))
    (hhost : e.FinitelyReentered target) : ComesToRest target e := by
  obtain ⟨N, hquiet⟩ := hhost
  -- the induction is on the number of moves until no further one re-enters the engine
  induction N generalizing e with
  | zero => exact comesToRest_of_quiet hreach h fun n => hquiet n (Nat.zero_le n)
  | succ N ih =>
    cases hmove : e.move? target with
    | none => exact .rest hmove
    | some e' =>
      refine .move hmove (ih (hreach.move? hmove) (finishes_move? h hmove) ?_)
      intro n hn e₁ e₂ h₁
      exact hquiet (n + 1) (Nat.succ_le_succ hn) e₁ e₂ ((moves?_succ hmove n).trans h₁)

/-- When the moves come to an end, the events that wait are handled, and the time passes. -/
theorem ComesToRest.exists_passes (h : ComesToRest target e) : ∃ limit e₁ fires e₂,
    settle limit e = some e₁ ∧ (owner limit).Passes target e₁ fires e₂ := by
  induction h with
  | @rest e hnone =>
    unfold move? at hnone
    cases hturn : e.turn? with
    | some e' =>
      rw [hturn] at hnone
      cases hnone
    | none =>
      rw [hturn] at hnone
      have hsettle : settle 0 e = some e := by
        unfold settle
        rw [hturn]
      exact ⟨0, e, [], _, hsettle, .reach (o := owner 0) (Option.map_eq_none_iff.1 hnone)⟩
  | @move e e' hmove _ ih =>
    obtain ⟨limit, e₁, fires, e₂, hsettle, hpasses⟩ := ih
    have hraised := passes_mono (Nat.le_succ limit) hpasses
    -- a turn that leads to `e'` is one more
    have hturns : ∀ {e : Engine H}, e.turn? = some e' → settle (limit + 1) e = some e₁ := by
      intro e hturn
      unfold settle
      rw [hturn]
      exact hsettle
    cases hturn : e.turn? with
    | some e'' =>
      unfold move? at hmove
      rw [hturn] at hmove
      cases hmove
      exact ⟨limit + 1, e₁, fires, e₂, hturns hturn, hraised⟩
    | none =>
      have hqueue := turn?_eq_none_iff.1 hturn
      have hself : settle (limit + 1) e = some e := by
        unfold settle
        rw [hturn]
      cases move?_outcome hmove with
      | turn hsome => cases hqueue.symm.trans hsome
      | @fire fire t _ hpop =>
        have hfire : (owner (limit + 1)).fire { e with world := e.world.withTimeline t } fire =
            some e₁ := by
          have hringing := hturns (turn?_ringing hqueue)
          rwa [ringing_eq] at hringing
        exact ⟨limit + 1, e, _, e₂, hself, .fire (o := owner (limit + 1)) hpop hfire hraised⟩

/-! ### Hosts that report finitely often -/

/-- A host with a budget for its reports: each of them costs something, and nothing that nodes ask
for raises what is left. -/
structure Budgeted (budget : H → Nat) : Prop where
  write : ∀ (host : H) signal value ack,
    (Host.write host signal value ack).reports.length +
      budget (Host.write host signal value ack).host ≤ budget host
  resolve : ∀ (host : H) scene,
    (Host.resolve host scene).reports.length + budget (Host.resolve host scene).host ≤ budget host

variable {budget : H → Nat}

/-- What joins the queue while nodes are at work is paid for. -/
theorem lasting_budget (hb : Budgeted budget) (queue : List Event) (bound : Nat) :
    World.Lasting fun w : World H =>
      ∃ later, w.queue = queue ++ later ∧ later.length + budget w.host ≤ bound := by
  have hcall : ∀ {α : Type} {w : World H} (reply : Reply H α),
      reply.reports.length + budget reply.host ≤ budget w.host →
      (∃ later, w.queue = queue ++ later ∧ later.length + budget w.host ≤ bound) →
      ∃ later, (w.afterCall reply).queue = queue ++ later ∧
        later.length + budget (w.afterCall reply).host ≤ bound := by
    rintro α w reply hpaid ⟨later, hqueue, hle⟩
    let accepted := reply.reports.filter fun c => w.registered.contains c.signal
    have hlength : accepted.length ≤ reply.reports.length := List.length_filter_le _ _
    rw [World.afterCall_eq, hqueue]
    refine ⟨later ++ accepted.map .change, List.append_assoc _ _ _, ?_⟩
    rw [List.length_append, List.length_map]
    dsimp only
    omega
  exact
    { write := fun signal value ack h => hcall _ (hb.write _ signal value ack) h
      resolve := fun scene h => hcall _ (hb.resolve _ scene) h
      withTimeline := fun {w t} _ h => by
        unfold World.withTimeline
        split <;> exact h
      nextToken := fun _ h => h }

/-- A move does not raise the budget, and lowers it if the host re-enters the engine. -/
theorem budget_move? (hb : Budgeted budget) (hmove : e.move? target = some e') :
    budget e'.world.host ≤ budget e.world.host ∧
      (e.Reenters e' → budget e'.world.host < budget e.world.host) := by
  have hlater : ∃ later, e'.world.queue = e.world.queue.tail ++ later ∧
      later.length + budget e'.world.host ≤ budget e.world.host := by
    have hlasting := lasting_budget hb e.world.queue.tail (budget e.world.host)
    cases move?_outcome hmove with
    | @turn event rest hqueue =>
      refine hlasting.handle (e := e.withQueue rest) event ⟨[], ?_, Nat.le_of_eq (Nat.zero_add _)⟩
      rw [hqueue, List.append_nil]
      rfl
    | @fire fire t hqueue =>
      let popped : Engine H := { e with world := e.world.withTimeline t }
      refine hlasting.handle (e := popped) (.timer fire) ⟨[], ?_, ?_⟩
      · show (e.world.withTimeline t).queue = _
        rw [World.queue_withTimeline, hqueue]
        rfl
      · show 0 + budget (e.world.withTimeline t).host ≤ _
        rw [World.host_withTimeline, Nat.zero_add]
  obtain ⟨later, hqueue, hle⟩ := hlater
  refine ⟨by omega, fun hreenters => ?_⟩
  have hpos : 0 < later.length := by
    refine List.length_pos_iff.2 fun hnil => hreenters ?_
    rw [hqueue, hnil, List.append_nil]
  omega

theorem budget_moves? (hb : Budgeted budget) {n : Nat} (hmoves : e.moves? target n = some e') :
    budget e'.world.host ≤ budget e.world.host := by
  induction n generalizing e with
  | zero =>
    cases hmoves
    exact Nat.le_refl _
  | succ n ih =>
    obtain ⟨e₁, hmove, hrest⟩ := Option.bind_eq_some_iff.1 hmoves
    exact (ih hrest).trans (budget_move? hb hmove).1

/-- A host with a budget re-enters the engine only finitely often. -/
theorem finitelyReentered_of_budget (hb : Budgeted budget) (target : Nat) (e : Engine H) :
    e.FinitelyReentered target := by
  induction hleft : budget e.world.host using Nat.strong_induction_on generalizing e with
  | h left ih =>
  by_cases hre : ∃ n e₁ e₂, e.moves? target n = some e₁ ∧ e₁.move? target = some e₂ ∧
      e₁.Reenters e₂
  · -- after a move that re-enters the engine, less of the budget is left
    obtain ⟨n, e₁, e₂, hmoves, hmove, hreenters⟩ := hre
    have hlower := (budget_move? hb hmove).2 hreenters
    have hle := budget_moves? hb hmoves
    obtain ⟨N, hquiet⟩ := ih (budget e₂.world.host) (by omega) e₂ rfl
    have hlater : ∀ m, e.moves? target (n + (m + 1)) = e₂.moves? target m := by
      intro m
      rw [moves?_add, hmoves, Option.bind_some, moves?_succ hmove]
    refine ⟨n + (N + 1), fun m hm e₃ e₄ h₃ h₄ => hquiet (m - (n + 1)) (by omega) e₃ e₄ ?_ h₄⟩
    rw [← hlater, ← h₃]
    congr 1
    omega
  · exact ⟨0, fun n _ e₁ e₂ hmoves hmove hreenters => hre ⟨n, e₁, e₂, hmoves, hmove, hreenters⟩⟩

theorem budgeted_echoes : Budgeted RecordingHost.echoes where
  write host signal value ack := by
    show (host.write signal value ack).reports.length +
      (host.write signal value ack).host.echoes ≤ _
    unfold RecordingHost.write
    split
    · exact Nat.le_of_eq (Nat.zero_add _)
    · dsimp only
      split
      · exact Nat.le_of_eq (Nat.zero_add _)
      · next n hechoes =>
        have hleft : host.echoes = n + 1 := hechoes
        rw [hleft]
        exact Nat.le_of_eq (Nat.add_comm 1 n)
  resolve _ _ := Nat.le_of_eq (Nat.zero_add _)

/-! ### Letting time pass -/

/-- Letting time pass comes to an end. Let the engine be in any state between two requests, and let
each of its running graphs have no cycle of links, or no enabled node whose timers have a configured
length of zero. If the host reports changes only finitely often meanwhile, any number of
milliseconds passes with finitely many turns. -/
theorem advance_terminates (hrest : AtRest e) (millis : Nat)
    (hgraphs : e.AllRunners fun _ r => r.graph.Acyclic ∨ r.graph.Patient)
    (hhost : e.FinitelyReentered (e.world.timeline.elapsed + millis)) :
    ∃ limit n e', e.advance limit millis = some (n, e') := by
  obtain ⟨c, hruns⟩ := hrest.reachable.exists_runs
  have hfinishes : e.AllRunners (Finishes c) := by
    intro i r hr
    obtain ⟨g, hg, halong⟩ := hruns i r hr
    exact ⟨g, hg, halong, halong.finishing (hgraphs i r hr)⟩
  obtain ⟨limit, e₁, fires, e₂, hsettle, hpasses⟩ :=
    (comesToRest hrest.reachable hfinishes hhost).exists_passes
  have hself : e₁ = e := by
    unfold settle at hsettle
    rw [turn?_eq_none_iff.2 hrest.queue_eq_nil] at hsettle
    exact (Option.some.inj hsettle).symm
  obtain ⟨limit', hadvance, -⟩ := passes_iff.2 ⟨limit, hself ▸ hpasses⟩
  exact ⟨limit', fires.length, e₂, hadvance⟩

/-- A small configuration with two pulses of length zero. The first one is written to a signal,
whose fall starts the second one. -/
def pulsing : Configuration :=
  { graphs := [{
      id := "g"
      nodes := [{ id := "c", typeName := "const", params := [("value", .bool true)] },
        { id := "p", typeName := "edge_rising" },
        { id := "o", typeName := "dp_out", params := [("dp", .str "x")] },
        { id := "i", typeName := "dp_in", params := [("dp", .str "x")] },
        { id := "q", typeName := "edge_falling" }]
      links := [⟨⟨"c", "out"⟩, ⟨"p", "in"⟩⟩, ⟨⟨"p", "out"⟩, ⟨"o", "in"⟩⟩,
        ⟨⟨"i", "out"⟩, ⟨"q", "in"⟩⟩] }] }

/-- On a host that reports its first two writes as changes, both pulses come to an end. -/
theorem advance_terminates_pulsing : ∃ e : Engine RecordingHost,
    (new { echoes := 2 } { start := default }).serve 1 (.load pulsing) = some e ∧
      (∀ (i : Nat) r, e.runners[i]? = some r → r.graph.Acyclic) ∧
      ∃ limit n e', e.advance limit 0 = some (n, e') := by
  have hforward : ((new { echoes := 2 } { start := default } : Engine RecordingHost).serve 1
      (.load pulsing)).map (fun e => e.runners.all fun r =>
        r.graph.links.all fun l => l.source.node < l.target.node) = some true := by
    decide +kernel
  obtain ⟨e, hload, hlinks⟩ := Option.map_eq_some_iff.1 hforward
  have hacyclic : ∀ (i : Nat) r, e.runners[i]? = some r → r.graph.Acyclic := by
    intro i r hr
    refine Graph.acyclic_of_lt fun l hl => ?_
    have hall := Array.all_eq_true_iff_forall_mem.1 hlinks r (Array.mem_of_getElem? hr)
    simpa using List.all_eq_true.1 hall l hl
  have hrest : AtRest e := (AtRest.fresh (fresh_new _ rfl)).serve 1 (.load pulsing) hload
  exact ⟨e, hload, hacyclic, advance_terminates hrest 0 (fun i r hr => .inl (hacyclic i r hr))
    (finitelyReentered_of_budget budgeted_echoes _ e)⟩

end Engine

end SignalGraph
