import SignalGraph.Proofs.Engine.Coupling

/-!
# Renumbering

Loads, armings and the order of scheduling are counted, and what is counted is told apart by its
number. If all numbers of a kind move by the same amount (`Engine.renumber`), nothing else changes:
what a runner does to a world that is renumbered is what it does to the world itself, renumbered
(`Runner.inject_renumber`, `Runner.onTimer_renumber`), by way of a coupling
(`World.coupling_renumber`), and so is what the engine does for a caller
(`Engine.serve_renumber`).
-/

namespace SignalGraph

/-- How far the numbers of loads, armings and scheduled timers are moved. -/
structure Renumbering where
  generation : Nat
  token : Nat
  number : Nat

variable {ρ : Renumbering}

/-! ### Timers and time -/

namespace Ticket

def renumber (ρ : Renumbering) (t : Ticket) : Ticket :=
  { t with number := t.number + ρ.number }

theorem renumber_inj {a b : Ticket} : a.renumber ρ = b.renumber ρ ↔ a = b := by
  obtain ⟨due, number⟩ := a
  obtain ⟨due', number'⟩ := b
  simp [renumber]

/-- Timers fire in the same order. -/
theorem before_renumber (a b : Ticket) : (a.renumber ρ).before (b.renumber ρ) = a.before b := by
  rw [Bool.eq_iff_iff, before_iff, before_iff]
  exact or_congr_right (and_congr_right fun _ => Nat.add_lt_add_iff_right)

end Ticket

namespace Fire

def renumber (ρ : Renumbering) (f : Fire) : Fire :=
  { f with generation := f.generation + ρ.generation, token := f.token + ρ.token }

theorem renumber_inj {a b : Fire} : a.renumber ρ = b.renumber ρ ↔ a = b := by
  obtain ⟨generation, graph, node, key, token⟩ := a
  obtain ⟨generation', graph', node', key', token'⟩ := b
  simp [renumber]

end Fire

def ArmedTimer.renumber (ρ : Renumbering) (t : ArmedTimer) : ArmedTimer :=
  { t with token := t.token + ρ.token, ticket := t.ticket.map (Ticket.renumber ρ) }

def Arming.renumber (ρ : Renumbering) (a : Arming) : Arming :=
  ⟨a.fire.renumber ρ, a.ticket.map (Ticket.renumber ρ)⟩

namespace Timeline

def renumber (ρ : Renumbering) (t : Timeline Fire) : Timeline Fire :=
  { t with
    nextNumber := t.nextNumber + ρ.number
    pending := t.pending.map (Prod.map (Ticket.renumber ρ) (Fire.renumber ρ)) }

/-- Renumbering keeps the order of the timers that wait. -/
theorem insertPending_renumber (ticket : Ticket) (fire : Fire) (pending : List (Ticket × Fire)) :
    insertPending (ticket.renumber ρ) (fire.renumber ρ)
        (pending.map (Prod.map (Ticket.renumber ρ) (Fire.renumber ρ))) =
      (insertPending ticket fire pending).map (Prod.map (Ticket.renumber ρ) (Fire.renumber ρ)) := by
  induction pending with
  | nil => rfl
  | cons entry rest ih =>
    rw [List.map_cons, insertPending, insertPending, Prod.map_fst, Ticket.before_renumber, ih]
    split <;> rfl

/-- A renumbered timeline gives out the renumbered tickets. -/
theorem schedule_renumber (t : Timeline Fire) (delay : Nat) (fire : Fire) :
    (t.renumber ρ).schedule delay (fire.renumber ρ) =
      (t.schedule delay fire).map (renumber ρ) (Ticket.renumber ρ) := by
  have hticket : (⟨t.elapsed + delay, t.nextNumber + ρ.number⟩ : Ticket) =
      Ticket.renumber ρ ⟨t.elapsed + delay, t.nextNumber⟩ := rfl
  have hnext : t.nextNumber + ρ.number + 1 = t.nextNumber + 1 + ρ.number := by omega
  simp only [schedule, renumber, hticket, insertPending_renumber, hnext, Prod.map]

/-- Cancelling a renumbered ticket cancels the same timer. -/
theorem cancel_renumber (t : Timeline Fire) (ticket : Ticket) :
    (t.renumber ρ).cancel (ticket.renumber ρ) = (t.cancel ticket).renumber ρ := by
  simp only [cancel, renumber, List.filter_map]
  congr 3
  ext entry
  rw [Function.comp_apply, Prod.map_fst, Bool.eq_iff_iff, bne_iff_ne, bne_iff_ne, Ne, Ne,
    Ticket.renumber_inj]

theorem popDue?_renumber (t : Timeline Fire) (target : Nat) :
    (t.renumber ρ).popDue? target =
      (t.popDue? target).map (Prod.map (Fire.renumber ρ) (renumber ρ)) := by
  unfold popDue? renumber
  cases t.pending with
  | nil => rfl
  | cons entry rest =>
    rw [List.map_cons, Prod.map]
    dsimp only [Ticket.renumber]
    split <;> rfl

end Timeline

/-! ### The world -/

def Event.renumber (ρ : Renumbering) : Event → Event
  | .change c => .change c
  | .timer fire => .timer (fire.renumber ρ)

def TimerService.renumber (ρ : Renumbering) : TimerService → TimerService
  | .shared => .shared
  | .separate t => .separate (t.renumber ρ)
  | .inert => .inert

namespace World

variable {H : Type}

def renumber (ρ : Renumbering) (w : World H) : World H :=
  { w with
    clock := w.clock.renumber ρ
    service := w.service.renumber ρ
    nextToken := w.nextToken + ρ.token
    queue := w.queue.map (Event.renumber ρ) }

theorem accept_renumber (w : World H) (c : Change) :
    (w.renumber ρ).accept c = (w.accept c).renumber ρ := by
  unfold accept
  rw [show (w.renumber ρ).registered = w.registered from rfl]
  split
  · simp only [renumber, List.map_append, List.map_cons, List.map_nil, Event.renumber]
  · rfl

/-- A host call does not see the numbers. -/
theorem afterCall_renumber {α : Type} (w : World H) (reply : Reply H α) :
    (w.renumber ρ).afterCall reply = (w.afterCall reply).renumber ρ := by
  unfold afterCall
  rw [show { w.renumber ρ with host := reply.host } =
    renumber ρ { w with host := reply.host } from rfl]
  generalize { w with host := reply.host } = v
  induction reply.reports generalizing v with
  | nil => rfl
  | cons c rest ih => rw [List.foldl_cons, accept_renumber, ih, List.foldl_cons]

theorem timeline_renumber (w : World H) : (w.renumber ρ).timeline = w.timeline.renumber ρ := by
  unfold timeline renumber TimerService.renumber
  cases w.service <;> rfl

theorem withTimeline_renumber (w : World H) (t : Timeline Fire) :
    (w.renumber ρ).withTimeline (t.renumber ρ) = (w.withTimeline t).renumber ρ := by
  unfold withTimeline renumber TimerService.renumber
  cases w.service <;> rfl

/-- Scheduling commutes with renumbering, whichever timers the host offers. -/
theorem schedule_renumber (w : World H) (delay : Nat) (fire : Fire) :
    (w.renumber ρ).schedule delay (fire.renumber ρ) =
      (w.schedule delay fire).map (Option.map (Ticket.renumber ρ)) (renumber ρ) := by
  have hlive : (w.timeline.renumber ρ).schedule delay (fire.renumber ρ) =
      (w.timeline.schedule delay fire).map (Timeline.renumber ρ) (Ticket.renumber ρ) :=
    Timeline.schedule_renumber _ _ _
  unfold schedule
  rw [timeline_renumber, hlive, show (w.renumber ρ).service = w.service.renumber ρ from rfl]
  cases hservice : w.service with
  | inert => rfl
  | shared | separate =>
    exact congrArg (Prod.mk _) (withTimeline_renumber w (w.timeline.schedule delay fire).1)

theorem cancelTimer_renumber (w : World H) (timer : ArmedTimer) :
    (w.renumber ρ).cancelTimer (timer.renumber ρ) = (w.cancelTimer timer).renumber ρ := by
  unfold cancelTimer
  rw [show (timer.renumber ρ).ticket = timer.ticket.map (Ticket.renumber ρ) from rfl]
  cases timer.ticket with
  | none => rfl
  | some ticket =>
    show (w.renumber ρ).withTimeline ((w.renumber ρ).timeline.cancel (ticket.renumber ρ)) = _
    rw [timeline_renumber, Timeline.cancel_renumber, withTimeline_renumber]

/-- An arming gets a renumbered token, a renumbered ticket and the generation moved on. -/
theorem book_renumber (w : World H) (generation : Nat) (graph node : String) (key : TimerKey)
    (delay : Nat) :
    (w.renumber ρ).book (generation + ρ.generation) graph node key delay =
      (w.book generation graph node key delay).map (Arming.renumber ρ) (renumber ρ) := by
  have htoken : w.nextToken + ρ.token + 1 = w.nextToken + 1 + ρ.token := by omega
  have hworld : { w.renumber ρ with nextToken := w.nextToken + ρ.token + 1 } =
      renumber ρ { w with nextToken := w.nextToken + 1 } := by
    rw [htoken]
    rfl
  have hscheduled := schedule_renumber (ρ := ρ) { w with nextToken := w.nextToken + 1 } delay
    ⟨generation, graph, node, key, w.nextToken⟩
  rw [← hworld] at hscheduled
  exact congrArg (fun scheduled : Option Ticket × World H =>
    ((⟨⟨generation + ρ.generation, graph, node, key, w.nextToken + ρ.token⟩, scheduled.1⟩ : Arming),
      scheduled.2)) hscheduled

end World

/-! ### Graphs -/

def Node.renumber (ρ : Renumbering) (n : Node) : Node :=
  { n with timers := n.timers.map (ArmedTimer.renumber ρ) }

def Graph.renumber (ρ : Renumbering) (g : Graph) : Graph :=
  { g with nodes := g.nodes.map (Node.renumber ρ) }

def Runner.renumber (ρ : Renumbering) (r : Runner) : Runner :=
  { r with graph := r.graph.renumber ρ }

def LoadContext.renumber (ρ : Renumbering) (ctx : LoadContext) : LoadContext :=
  { ctx with generation := ctx.generation + ρ.generation }

/-- Lists whose members correspond by a function are one the image of the other. -/
theorem eq_map_of_zip {α β : Type} {f : α → β} {l : List β} {l' : List α}
    (hlength : l.length = l'.length) (h : ∀ p ∈ l.zip l', p.1 = f p.2) : l = l'.map f := by
  rw [← map_eq_map_of_zip (f := id) hlength h, List.map_id]

namespace Graph

variable {g g' : Graph} {ctx : LoadContext}

/-- A renumbered graph differs from the graph in tokens and tickets alone. -/
theorem twin_renumber (g : Graph) : (g.renumber ρ).Twin g := by
  refine ⟨rfl, rfl, ?_⟩
  rw [renumber, Array.toList_map, List.forall₂_map_left_iff, List.forall₂_same]
  intro n _
  refine ⟨rfl, ?_⟩
  exact List.forall₂_map_left_iff.2 (List.forall₂_same.2 fun _ _ => rfl)

/-- The timers of a renumbered graph are paired off with those they come from. -/
theorem pairings_renumber (g : Graph) {p : Arming × Arming}
    (hp : p ∈ (g.renumber ρ).pairings (ctx.renumber ρ).generation ctx.generation g) :
    p.1 = p.2.renumber ρ := by
  obtain ⟨⟨n, n'⟩, hn, hp⟩ := List.mem_flatMap.1 hp
  obtain ⟨⟨t, t'⟩, ht, rfl⟩ := List.mem_map.1 hp
  rw [renumber, Array.toList_map] at hn
  obtain rfl : n = n'.renumber ρ := mem_zip_map_self hn
  obtain rfl : t = t'.renumber ρ := mem_zip_map_self ht
  rfl

/-- A twin whose timers are renumbered is renumbered. -/
theorem Twin.eq_renumber (h : g.Twin g')
    (hpairs : ∀ p ∈ g.pairings (ctx.renumber ρ).generation ctx.generation g',
      p.1 = p.2.renumber ρ) :
    g = g'.renumber ρ := by
  have hnodes : g.nodes.toList = g'.nodes.toList.map (Node.renumber ρ) := by
    -- node by node, and in each node timer by timer
    refine eq_map_of_zip h.nodes.length_eq ?_
    rintro ⟨n, n'⟩ hn
    have htwin : n.Twin n' := (List.forall₂_iff_zip.1 h.nodes).2 hn
    have htimers : n.timers = n'.timers.map (ArmedTimer.renumber ρ) := by
      refine eq_map_of_zip htwin.keys.length_eq ?_
      rintro ⟨t, t'⟩ ht
      have hkey : t'.key = t.key := (List.forall₂_iff_zip.1 htwin.keys).2 ht
      have harming : t.arming (ctx.renumber ρ).generation g.id n.id =
          (t'.arming ctx.generation g.id n.id).renumber ρ :=
        hpairs _ (List.mem_flatMap.2 ⟨_, hn, List.mem_map_of_mem ht⟩)
      obtain ⟨key, token, ticket⟩ := t
      obtain ⟨key', token', ticket'⟩ := t'
      obtain rfl : key' = key := hkey
      obtain rfl : token = token' + ρ.token := congrArg (fun a => a.fire.token) harming
      obtain rfl : ticket = ticket'.map (Ticket.renumber ρ) := congrArg Arming.ticket harming
      rfl
    have hback : n = { n' with timers := n.timers } := by rw [htwin.eq]
    show n = n'.renumber ρ
    rw [hback, htimers]
    rfl
  obtain ⟨id, nodes, links⟩ := g
  obtain rfl : g'.id = id := h.id_eq
  obtain rfl : g'.links = links := h.links_eq
  rw [renumber, Graph.mk.injEq]
  refine ⟨rfl, Array.toList_inj.1 ?_, rfl⟩
  rw [Array.toList_map]
  exact hnodes

end Graph

/-! ### Runners -/

/-- The world is renumbered, and so are all timers. -/
def World.Renumbered {H : Type} (ρ : Renumbering) (w w' : World H) (l : List (Arming × Arming)) :
    Prop :=
  w = w'.renumber ρ ∧ ∀ p ∈ l, p.1 = p.2.renumber ρ

variable {H : Type} [Host H]

/-- Renumbered worlds are coupled: calls to the host are the same, and timers are armed and
cancelled under renumbered tokens and tickets. -/
theorem World.coupling_renumber (H : Type) [Host H] (ρ : Renumbering) (ctx : LoadContext)
    (graph : String) :
    Coupling (ctx.renumber ρ) ctx graph (World.Renumbered (H := H) ρ) where
  settings_eq := rfl
  scenes_eq := rfl
  perm hl h := ⟨h.1, fun p hp => h.2 p (hl.symm.subset hp)⟩
  reading h := by
    obtain ⟨rfl, -⟩ := h
    rfl
  write signal value ack h := by
    obtain ⟨rfl, hl⟩ := h
    exact ⟨World.afterCall_renumber _ _, hl⟩
  resolve scene h := by
    obtain ⟨rfl, hl⟩ := h
    exact ⟨rfl, World.afterCall_renumber _ _, hl⟩
  cancel {w w' l} fire fire' timer timer' h := by
    obtain ⟨rfl, hl⟩ := h
    -- the two timers are one arming, and renumbering leaves its ticket alone
    have hticket : timer.ticket = (timer'.renumber ρ).ticket :=
      congrArg Arming.ticket (hl _ List.mem_cons_self)
    refine ⟨?_, fun p hp => hl p (List.mem_cons_of_mem _ hp)⟩
    rw [← World.cancelTimer_renumber]
    unfold World.cancelTimer
    rw [hticket]
  book {w w' l} node key delay h := by
    obtain ⟨rfl, hl⟩ := h
    have hbooked := w'.book_renumber (ρ := ρ) ctx.generation graph node key delay
    refine ⟨congrArg Prod.snd hbooked, ?_⟩
    intro p hp
    rcases List.mem_cons.1 hp with rfl | hp
    · exact congrArg Prod.fst hbooked
    · exact hl p hp

namespace Runner

open Coupling

variable {ctx : LoadContext}

/-- A runner and the world, renumbered. -/
def renumberWith (ρ : Renumbering) (a : Runner × World H) : Runner × World H :=
  a.map (Runner.renumber ρ) (World.renumber ρ)

omit [Host H] in
theorem runners_renumber (r : Runner) (w : World H) :
    Runners (ctx.renumber ρ) ctx r.graph.id (World.Renumbered ρ) (r.renumber ρ, w.renumber ρ)
      (r, w) :=
  ⟨⟨rfl, r.graph.twin_renumber, rfl, fun _ => r.graph.pairings_renumber⟩, rfl, rfl⟩

omit [Host H] in
/-- What is coupled by renumbering is renumbered. -/
theorem eq_renumberWith {graph : String} {a a' : Runner × World H}
    (h : Runners (ctx.renumber ρ) ctx graph (World.Renumbered ρ) a a') : a = renumberWith ρ a' := by
  obtain ⟨⟨graph, lastSteps, truncatedPasses⟩, w⟩ := a
  obtain ⟨⟨-, htwin, hworld, hpairs⟩, hsteps, htruncated⟩ := h
  obtain rfl : a'.1.lastSteps = lastSteps := hsteps
  obtain rfl : a'.1.truncatedPasses = truncatedPasses := htruncated
  obtain rfl : graph = a'.1.graph.renumber ρ := htwin.eq_renumber hpairs
  obtain rfl : w = a'.2.renumber ρ := hworld
  rfl

variable (r : Runner)

/-- What a graph does with a value commutes with renumbering. -/
theorem inject_renumber (ctx : LoadContext) (w : World H) (i : Nat) (value : Value) :
    (r.renumber ρ).inject (ctx.renumber ρ) (w.renumber ρ) i value =
      renumberWith ρ (r.inject ctx w i value) :=
  eq_renumberWith ((World.coupling_renumber H ρ ctx _).inject (runners_renumber r w) i value)

theorem prime_renumber (ctx : LoadContext) (w : World H) :
    (r.renumber ρ).prime (ctx.renumber ρ) (w.renumber ρ) = renumberWith ρ (r.prime ctx w) :=
  eq_renumberWith ((World.coupling_renumber H ρ ctx _).prime (runners_renumber r w))

/-- A renumbered fire does to the renumbered graph what the fire does to the graph. -/
theorem onTimer_renumber (ctx : LoadContext) (w : World H) {fire : Fire}
    (hgeneration : fire.generation = ctx.generation)
    (hgraph : fire.graph = r.graph.id) :
    (r.renumber ρ).onTimer (ctx.renumber ρ) (w.renumber ρ) (fire.renumber ρ) =
      renumberWith ρ (r.onTimer ctx w fire) := by
  obtain ⟨generation, graph, node, key, token⟩ := fire
  obtain rfl : generation = ctx.generation := hgeneration
  obtain rfl : graph = r.graph.id := hgraph
  have hpairs :
      ∀ p ∈ (r.graph.renumber ρ).pairings (ctx.renumber ρ).generation ctx.generation r.graph,
      p.1 = p.2.renumber ρ := fun _ => r.graph.pairings_renumber
  have hsame :
      ∀ p ∈ (r.graph.renumber ρ).pairings (ctx.renumber ρ).generation ctx.generation r.graph,
      (p.2.fire = ⟨ctx.generation, r.graph.id, node, key, token⟩ ↔
        p.1.fire = ⟨ctx.generation + ρ.generation, r.graph.id, node, key, token + ρ.token⟩) := by
    intro p hp
    rw [hpairs p hp]
    exact (Fire.renumber_inj (ρ := ρ) (a := p.2.fire)).symm
  have htwin : (r.renumber ρ).graph.Twin r.graph := r.graph.twin_renumber
  -- either both fires are refused, or both take away the timer that they mean
  rcases Coupling.onTimer (w.renumber ρ) w htwin rfl rfl hsame with
    ⟨hself, hself', -⟩ | ⟨_, _, others, hperm, htaken⟩
  · exact hself.trans (congrArg (renumberWith ρ) hself'.symm)
  · refine eq_renumberWith (htaken (World.coupling_renumber H ρ ctx _) ⟨rfl, ?_⟩)
    exact fun p hp => hpairs p (hperm.symm.subset (List.mem_cons_of_mem _ hp))

omit [Host H] in
/-- Cancelling all timers of a graph commutes with renumbering. -/
theorem cancelTimers_renumber (w : World H) :
    Engine.cancelTimers (w.renumber ρ) (r.renumber ρ) = (Engine.cancelTimers w r).renumber ρ := by
  have hnode (w : World H) (n : Node) :
      (n.renumber ρ).timers.foldl World.cancelTimer (w.renumber ρ) =
        (n.timers.foldl World.cancelTimer w).renumber ρ := by
    rw [Node.renumber, List.foldl_map]
    exact List.foldl_hom (World.renumber ρ) fun w t => w.cancelTimer_renumber t
  unfold Engine.cancelTimers
  rw [← Array.foldl_toList, ← Array.foldl_toList, Runner.renumber, Graph.renumber,
    Array.toList_map, List.foldl_map]
  exact List.foldl_hom (World.renumber ρ) fun w n => hnode w n

end Runner

/-! ### The engine -/

namespace Engine

def renumber (ρ : Renumbering) (e : Engine H) : Engine H :=
  { e with
    world := e.world.renumber ρ
    generation := e.generation + ρ.generation
    runners := e.runners.map (Runner.renumber ρ) }

variable (e : Engine H)

omit [Host H] in
/-- Runners that are changed alike. -/
theorem updateRunner_renumber {e : Engine H} {i : Nat} {f f' : Runner → World H → Runner × World H}
    (h : ∀ r, e.runners[i]? = some r →
      f (r.renumber ρ) (e.world.renumber ρ) = Runner.renumberWith ρ (f' r e.world)) :
    (e.renumber ρ).updateRunner i f = (e.updateRunner i f').renumber ρ := by
  have hrunner : (e.renumber ρ).runners[i]? = e.runners[i]?.map (Runner.renumber ρ) :=
    Array.getElem?_map
  unfold updateRunner
  rw [hrunner]
  cases hr : e.runners[i]? with
  | none => rfl
  | some r =>
    simp only [Option.map_some, show (e.renumber ρ).world = e.world.renumber ρ from rfl, h r hr]
    simp only [renumber, Runner.renumberWith, Prod.map, Array.map_setIfInBounds]

theorem inject_renumber (value : Value) (s : Subscriber) :
    (e.renumber ρ).inject value s = (e.inject value s).renumber ρ :=
  updateRunner_renumber fun r _ => r.inject_renumber e.context e.world s.node value

theorem primeRunner_renumber (i : Nat) :
    (e.renumber ρ).primeRunner i = (e.primeRunner i).renumber ρ :=
  updateRunner_renumber fun r _ => r.prime_renumber e.context e.world

theorem injectAll_renumber (subscribers : List Subscriber) (value : Value) :
    (e.renumber ρ).injectAll subscribers value = (e.injectAll subscribers value).renumber ρ :=
  List.foldl_hom (renumber ρ) fun e s => e.inject_renumber value s

/-- A turn commutes with renumbering, since a fire is current or outdated on both sides. -/
theorem handle_renumber (event : Event) :
    (e.renumber ρ).handle (event.renumber ρ) = (e.handle event).renumber ρ := by
  cases event with
  | change c =>
    show (e.renumber ρ).handle (.change c) = _
    unfold handle
    dsimp only
    rw [show (e.renumber ρ).subscribers = e.subscribers from rfl]
    split
    · exact e.injectAll_renumber _ _
    · rfl
  | timer fire =>
    have hindex : ((e.renumber ρ).runners.findIdx? fun r => r.graph.id == fire.graph) =
        e.runners.findIdx? fun r => r.graph.id == fire.graph := by
      rw [renumber, Array.findIdx?_map]
      rfl
    have hgeneration : (fire.renumber ρ).generation ≠ (e.renumber ρ).generation ↔
        fire.generation ≠ e.generation := not_congr Nat.add_right_cancel_iff
    show (e.renumber ρ).handle (.timer (fire.renumber ρ)) = _
    unfold handle
    dsimp only
    rw [show (fire.renumber ρ).graph = fire.graph from rfl, hindex]
    -- an outdated fire is dropped on both sides
    by_cases hcurrent : fire.generation = e.generation
    · rw [if_neg (not_not.2 hcurrent), if_neg (hgeneration.not.2 (not_not.2 hcurrent))]
      cases hfound : e.runners.findIdx? fun r => r.graph.id == fire.graph with
      | none => rfl
      | some i =>
        refine updateRunner_renumber fun r hr =>
          r.onTimer_renumber e.context e.world hcurrent ?_
        exact (eq_of_findIdx?_beq hfound hr).symm
    · rw [if_pos hcurrent, if_pos (hgeneration.2 hcurrent)]

theorem turn?_renumber : (e.renumber ρ).turn? = e.turn?.map (renumber ρ) := by
  unfold turn?
  rw [show (e.renumber ρ).world.queue = e.world.queue.map (Event.renumber ρ) from rfl]
  cases e.world.queue with
  | nil => rfl
  | cons event rest =>
    exact congrArg some (handle_renumber (e.withQueue rest) event)

theorem settle_renumber (limit : Nat) (e : Engine H) :
    (e.renumber ρ).settle limit = (e.settle limit).map (renumber ρ) := by
  induction limit generalizing e with
  | zero =>
    unfold settle
    rw [turn?_renumber]
    cases e.turn? <;> rfl
  | succ limit ih =>
    unfold settle
    rw [turn?_renumber]
    cases e.turn? with
    | none => rfl
    | some e' => exact ih e'

theorem submit_renumber (limit : Nat) (event : Event) :
    (e.renumber ρ).submit limit (event.renumber ρ) = (e.submit limit event).map (renumber ρ) := by
  have hqueue : (e.renumber ρ).world.queue ++ [event.renumber ρ] =
      (e.world.queue ++ [event]).map (Event.renumber ρ) := by
    rw [List.map_append]
    rfl
  unfold submit
  rw [hqueue]
  exact settle_renumber limit (e.withQueue (e.world.queue ++ [event]))

/-! ### Requests -/

theorem teardown_renumber : (e.renumber ρ).teardown = e.teardown.renumber ρ := by
  have hcancelled : (e.renumber ρ).runners.foldl cancelTimers (e.renumber ρ).world =
      (e.runners.foldl cancelTimers e.world).renumber ρ := by
    rw [renumber, ← Array.foldl_toList, ← Array.foldl_toList, Array.toList_map, List.foldl_map]
    exact List.foldl_hom (World.renumber ρ) fun w r => r.cancelTimers_renumber w
  have hunsubscribed (w : World H) : e.subscribers.keys.foldl World.unsubscribe (w.renumber ρ) =
      (e.subscribers.keys.foldl World.unsubscribe w).renumber ρ :=
    List.foldl_hom (World.renumber ρ) fun w signal => w.afterCall_renumber _
  unfold teardown
  dsimp only
  rw [hcancelled, show (e.renumber ρ).subscribers = e.subscribers from rfl, hunsubscribed]
  simp only [renumber, Array.map_empty]
  rfl

/-- Graphs that have just been built hold no timers. -/
theorem assemble_renumber (c : Configuration) :
    (e.renumber ρ).assemble c = (e.assemble c).renumber ρ := by
  have hbuilt : ∀ g ∈ (buildGraphs [] c.graphs).1,
      ({ graph := g } : Runner).renumber ρ = { graph := g } := by
    -- a graph that has just been built has no timers to renumber
    intro g hg
    have hfresh := (fresh_of_mem_buildGraphs hg).1
    have hnodes : g.nodes.map (Node.renumber ρ) = g.nodes.map id := by
      refine Array.map_congr_left fun n hn => ?_
      obtain ⟨i, hi⟩ := Array.getElem?_of_mem hn
      rw [Node.renumber, (hfresh.nodes i n hi).timers, List.map_nil, id,
        ← (hfresh.nodes i n hi).timers]
    rw [Runner.renumber, Graph.renumber, hnodes, Array.map_id]
  have hrunners : (((buildGraphs [] c.graphs).1.map fun g => ({ graph := g } : Runner)).toArray.map
      (Runner.renumber ρ)) = ((buildGraphs [] c.graphs).1.map fun g => { graph := g }).toArray := by
    rw [List.map_toArray, List.map_map]
    exact congrArg _ (List.map_congr_left hbuilt)
  have hgeneration : e.generation + ρ.generation + 1 = e.generation + 1 + ρ.generation := by omega
  unfold assemble
  rw [teardown_renumber, show (e.renumber ρ).generation = e.generation + ρ.generation from rfl,
    hgeneration]
  simp only [renumber, hrunners]

/-- Connecting a signal commutes with renumbering: the host is called in the same way. -/
theorem connect_renumber (entry : String × List Subscriber) :
    (e.renumber ρ).connect entry = (e.connect entry).renumber ρ := by
  -- neither of the two calls depends on numbers
  have hsubscribed (w : World H) (signal : String) :
      (w.renumber ρ).subscribe signal = (w.subscribe signal).renumber ρ :=
    w.afterCall_renumber _
  have hread (w : World H) (signal : String) :
      (w.renumber ρ).read signal = (w.read signal).map id (World.renumber ρ) :=
    congrArg (Prod.mk _) (w.afterCall_renumber _)
  have hworld : ({ (e.renumber ρ).world with
        registered := entry.1 :: (e.renumber ρ).world.registered }.subscribe entry.1).read entry.1 =
      (({ e.world with registered := entry.1 :: e.world.registered }.subscribe entry.1).read
        entry.1).map id (World.renumber ρ) := by
    rw [← hread, ← hsubscribed]
    rfl
  have hvalue : (e.renumber ρ).initialValue? entry.1 = e.initialValue? entry.1 := by
    unfold initialValue?
    rw [hworld]
    rfl
  have hafter : (e.renumber ρ).subscribed entry.1 = (e.subscribed entry.1).renumber ρ := by
    unfold subscribed
    rw [congrArg Prod.snd hworld]
    rfl
  rw [connect_eq, connect_eq, hvalue, hafter]
  cases e.initialValue? entry.1 with
  | none => rfl
  | some value => exact injectAll_renumber _ _ _

theorem connectAll_renumber (table : Dictionary (List Subscriber)) :
    table.foldl connect (e.renumber ρ) = (table.foldl connect e).renumber ρ :=
  List.foldl_hom (renumber ρ) fun e entry => e.connect_renumber entry

theorem primeAll_renumber (l : List Nat) :
    l.foldl primeRunner (e.renumber ρ) = (l.foldl primeRunner e).renumber ρ :=
  List.foldl_hom (renumber ρ) fun e i => e.primeRunner_renumber i

theorem install_renumber (c : Configuration) :
    (e.renumber ρ).install c = (e.install c).map id (renumber ρ) := by
  have hafter : ((e.renumber ρ).install c).2 = (e.install c).2.renumber ρ := by
    rw [install_eq, install_eq, assemble_renumber, connectAll_renumber, primeAll_renumber]
  exact congrArg (Prod.mk (e.install c).1) hafter

/-- Letting time pass commutes with renumbering. -/
theorem hom_renumber (H : Type) [Host H] (ρ : Renumbering) (limit : Nat) :
    Owner.Hom (owner (H := H) limit) (owner limit) (renumber ρ) (Fire.renumber ρ)
      (Timeline.renumber ρ) where
  timeline e := e.world.timeline_renumber
  withTimeline e t := by
    show { e.renumber ρ with world := (e.world.renumber ρ).withTimeline (t.renumber ρ) } = _
    rw [World.withTimeline_renumber]
    rfl
  fire e fire := e.submit_renumber limit (.timer fire)
  popDue? t target := t.popDue?_renumber target
  reach _ _ := rfl

/-- A caller sees the same, up to the numbers. -/
theorem serve_renumber (limit : Nat) (request : Request H) :
    (e.renumber ρ).serve limit request = (e.serve limit request).map (renumber ρ) := by
  cases request with
  | load c =>
    simp only [serve, load, install_renumber, Prod.map, settle_renumber, Option.map_map]
    rfl
  | stop =>
    show some (e.renumber ρ).stop = some (e.stop.renumber ρ)
    unfold stop
    rw [teardown_renumber]
    rfl
  | change c =>
    show (e.renumber ρ).change limit c = (e.change limit c).map (renumber ρ)
    unfold change
    rw [show (e.renumber ρ).world.registered = e.world.registered from rfl]
    split
    · exact e.submit_renumber limit (.change c)
    · rfl
  | advance millis =>
    -- renumbering does not move the clock, so both run to the same time
    have helapsed : ((e.renumber ρ).world.timeline).elapsed = e.world.timeline.elapsed := by
      rw [show (e.renumber ρ).world = e.world.renumber ρ from rfl, World.timeline_renumber]
      rfl
    show ((owner limit).advanceTo (((e.renumber ρ).world.timeline).elapsed + millis) limit 0
      (e.renumber ρ)).map Prod.snd = _
    rw [helapsed, (hom_renumber H ρ limit).advanceTo, Option.map_map]
    exact (Option.map_map (renumber ρ) Prod.snd _).symm
  | shiftLocal millis => rfl
  | host host => rfl

end Engine

end SignalGraph
