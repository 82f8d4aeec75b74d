import Mathlib.Data.List.Perm.Basic
import SignalGraph.Proofs.Engine.Run

/-!
# Ledgers of the armed timers

The armings of an engine are the timers that the nodes of its running graphs hold, each with the
address it was armed with. A `Ledger` is a property of the world and a list of armings that survives
host calls, cancelling and scheduling. Every ledger is kept by whatever the engine does: a turn that
handles a change and a load keep it (`Ledger.closed`), stopping all graphs leaves it with no arming
(`Ledger.teardown`), and a fire is either refused or takes exactly its own arming away
(`Engine.handle_timer`).
-/

namespace SignalGraph

/-! ### Lists -/

/-- A list is the first element with a property and the rest. -/
theorem perm_cons_eraseP {α : Type} {p : α → Bool} {a : α} {l : List α}
    (h : l.find? p = some a) : l.Perm (a :: l.eraseP p) := by
  obtain ⟨hp, before, after, rfl, hbefore⟩ := List.find?_eq_some_iff_append.1 h
  rw [List.eraseP_append_right _ (by simpa using hbefore), List.eraseP_cons_of_pos hp]
  exact List.perm_middle

/-- One element of an array accounts for one part of what all of them give. -/
theorem exists_flatMap_perm {α β : Type} {xs : Array α} {i : Nat} {a : α} (f : α → List β)
    (h : xs[i]? = some a) : ∃ rest, (xs.toList.flatMap f).Perm (f a ++ rest) ∧
      ∀ b, ((xs.setIfInBounds i b).toList.flatMap f).Perm (f b ++ rest) := by
  obtain ⟨hi, ha⟩ := Array.getElem?_eq_some_iff.1 h
  have hlt : i < xs.toList.length := by simpa using hi
  refine ⟨(xs.toList.eraseIdx i).flatMap f, ?_, fun b => ?_⟩
  · have hget : xs.toList[i] = a := by simpa using ha
    have hperm := (List.getElem_cons_eraseIdx_perm hlt).symm.flatMap_right f
    rwa [hget, List.flatMap_cons] at hperm
  · rw [Array.toList_setIfInBounds]
    have hperm := (List.set_perm_cons_eraseIdx hlt b).flatMap_right f
    rwa [List.flatMap_cons] at hperm

/-- What a map makes the first element comes from an element. -/
theorem exists_perm_cons_of_map {α β : Type} {f : α → β} {l : List α} {b : β} {rest : List β}
    (h : (l.map f).Perm (b :: rest)) :
    ∃ a l', f a = b ∧ l.Perm (a :: l') ∧ (l'.map f).Perm rest := by
  obtain ⟨a, ha, rfl⟩ := List.mem_map.1 (h.symm.subset List.mem_cons_self)
  obtain ⟨before, after, rfl⟩ := List.append_of_mem ha
  have hmiddle : (before ++ a :: after).Perm (a :: (before ++ after)) := List.perm_middle
  refine ⟨a, before ++ after, rfl, hmiddle, List.Perm.cons_inv (a := f a) ?_⟩
  rw [← List.map_cons]
  exact (hmiddle.map f).symm.trans h

/-! ### Armings -/

/-- A timer with the address it was armed with. -/
structure Arming where
  fire : Fire
  ticket : Option Ticket

/-- The arming of a timer of a node. -/
def ArmedTimer.arming (generation : Nat) (graph node : String) (t : ArmedTimer) : Arming :=
  ⟨⟨generation, graph, node, t.key, t.token⟩, t.ticket⟩

/-- No two timers of a node have the same entry. -/
theorem ArmedTimer.arming_injective (generation : Nat) (graph node : String) :
    Function.Injective (ArmedTimer.arming generation graph node) := by
  rintro ⟨key, token, ticket⟩ ⟨key', token', ticket'⟩ h
  cases h
  rfl

def Node.armings (generation : Nat) (graph : String) (n : Node) : List Arming :=
  n.timers.map (ArmedTimer.arming generation graph n.id)

def Graph.armings (generation : Nat) (g : Graph) : List Arming :=
  g.nodes.toList.flatMap (Node.armings generation g.id)

/-- The timers of all running graphs. -/
def Engine.armings {H : Type} (e : Engine H) : List Arming :=
  e.runners.toList.flatMap fun r => r.graph.armings e.generation

/-- The entries of a graph are those of a node and others, which a replacement of the node keeps. -/
theorem Graph.exists_armings_perm {g : Graph} {i : Nat} {n : Node} (generation : Nat)
    (hn : g.nodes[i]? = some n) :
    ∃ others, (g.armings generation).Perm (n.armings generation g.id ++ others) ∧
      ∀ m, ((g.replace i m).armings generation).Perm (m.armings generation g.id ++ others) :=
  exists_flatMap_perm _ hn

/-- A fire that is in force takes one timer, the one with its key and its token. -/
theorem ArmedTimers.exists_of_takeFired? {timers rest : ArmedTimers} {key : TimerKey} {token : Nat}
    (h : timers.takeFired? key token = some rest) :
    ∃ t : ArmedTimer, t.key = key ∧ t.token = token ∧ timers.Perm (t :: rest) := by
  unfold takeFired? at h
  rw [Option.ite_none_right_eq_some] at h
  obtain ⟨t, ht⟩ := Option.isSome_iff_exists.1 (List.find?_isSome.2 (List.any_eq_true.1 h.1))
  have hfired := List.find?_some ht
  rw [Bool.and_eq_true, beq_iff_eq, beq_iff_eq] at hfired
  refine ⟨t, hfired.1, hfired.2, ?_⟩
  rw [← Option.some.inj h.2]
  exact perm_cons_eraseP ht

/-- A timer that a node holds is not refused. -/
theorem ArmedTimers.takeFired?_ne_none {timers : ArmedTimers} {t : ArmedTimer} (ht : t ∈ timers) :
    timers.takeFired? t.key t.token ≠ none := by
  have hany : timers.any (fun s => s.key == t.key && s.token == t.token) = true := by
    refine List.any_eq_true.2 ⟨t, ht, ?_⟩
    rw [beq_self_eq_true, beq_self_eq_true, Bool.and_self]
  unfold takeFired?
  rw [if_pos hany]
  exact Option.some_ne_none _

/-- A property of the world and the armed timers that survives what the engine does to them. -/
structure Ledger {H : Type} (Q : World H → List Arming → Prop) : Prop where
  perm : ∀ {w l l'}, l.Perm l' → Q w l → Q w l'
  quiet : ∀ {w w' l}, w.Quiet w' → Q w l → Q w' l
  /-- A timer is cancelled. -/
  cancel : ∀ {w l} (fire : Fire) (timer : ArmedTimer), Q w (⟨fire, timer.ticket⟩ :: l) →
    Q (w.cancelTimer timer) l
  /-- A timer is scheduled with a fresh token. -/
  schedule : ∀ {w : World H} {l} (fire delay), fire.token = w.nextToken → Q w l →
    Q ({ w with nextToken := w.nextToken + 1 }.schedule delay fire).2
      (⟨fire, ({ w with nextToken := w.nextToken + 1 }.schedule delay fire).1⟩ :: l)

namespace Ledger

variable {H : Type} {Q : World H → List Arming → Prop}

/-! ### Commands -/

section Commands

variable {generation : Nat} {graph node : String} {timers : ArmedTimers} {w : World H}
  {rest : List Arming}

theorem disarm (hQ : Ledger Q) (key : TimerKey)
    (h : Q w (timers.map (ArmedTimer.arming generation graph node) ++ rest)) :
    Q (w.disarm timers key).2
      ((w.disarm timers key).1.map (ArmedTimer.arming generation graph node) ++ rest) := by
  unfold World.disarm
  split
  · next timer hfind =>
    refine hQ.cancel (timer.arming generation graph node).fire timer (hQ.perm ?_ h)
    exact ((perm_cons_eraseP hfind).map _).append_right rest
  · exact h

/-- Arming goes on from the world without the timer under the same key. -/
theorem arm_disarmed (hQ : Ledger Q) (key : TimerKey) (delay : Nat)
    (h : Q (w.disarm timers key).2
      ((w.disarm timers key).1.map (ArmedTimer.arming generation graph node) ++ rest)) :
    Q (w.arm generation graph node timers key delay).2
      ((w.arm generation graph node timers key delay).1.map
        (ArmedTimer.arming generation graph node) ++ rest) := by
  unfold World.arm
  dsimp only
  refine hQ.perm ?_ (hQ.schedule ⟨generation, graph, node, key, _⟩ delay rfl h)
  rw [List.map_append, List.append_assoc]
  exact List.perm_middle.symm

theorem arm (hQ : Ledger Q) (key : TimerKey) (delay : Nat)
    (h : Q w (timers.map (ArmedTimer.arming generation graph node) ++ rest)) :
    Q (w.arm generation graph node timers key delay).2
      ((w.arm generation graph node timers key delay).1.map
        (ArmedTimer.arming generation graph node) ++ rest) :=
  hQ.arm_disarmed key delay (hQ.disarm key h)

variable [Host H]

/-- Every command keeps the books. -/
theorem carryOut (hQ : Ledger Q) {ctx : LoadContext} (command : Command)
    (h : Q w (timers.map (ArmedTimer.arming ctx.generation graph node) ++ rest)) :
    Q (World.carryOut ctx graph node (timers, w) command).2
      ((World.carryOut ctx graph node (timers, w) command).1.map
        (ArmedTimer.arming ctx.generation graph node) ++ rest) := by
  cases command with
  | arm key delay => exact hQ.arm key delay h
  | cancel key => exact hQ.disarm key h
  | write signal value ack => exact hQ.quiet (.afterCall _ _) h
  | trigger scene fallback payload ack pulse =>
    have houtcome := w.trigger_outcome timers ctx graph node scene fallback payload ack pulse
    generalize World.carryOut ctx graph node (timers, w) _ = o at houtcome ⊢
    -- looking for the target only asks the host; the timer of the reset is armed like any other
    cases houtcome with
    | unresolved htarget => exact hQ.quiet (.of_sceneTarget htarget) h
    | @written signal w' htarget =>
      exact hQ.quiet (.write_of_sceneTarget htarget signal payload ack) h
    | @armed signal w' htarget =>
      exact hQ.arm _ _ (hQ.quiet (.write_of_sceneTarget htarget signal payload ack) h)

theorem commands (hQ : Ledger Q) {ctx : LoadContext} (commands : List Command)
    (h : Q w (timers.map (ArmedTimer.arming ctx.generation graph node) ++ rest)) :
    Q (commands.foldl (World.carryOut ctx graph node) (timers, w)).2
      ((commands.foldl (World.carryOut ctx graph node) (timers, w)).1.map
        (ArmedTimer.arming ctx.generation graph node) ++ rest) := by
  induction commands generalizing timers w with
  | nil => exact h
  | cons command commands ih => exact ih (hQ.carryOut command h)

end Commands

/-! ### Evaluations and passes -/

section Passes

variable {ctx : LoadContext} {rest : List Arming}

/-- A node is replaced by one with the same timers. -/
theorem replace (hQ : Ledger Q) {g : Graph} {w : World H} {i : Nat} {n m : Node}
    (hn : g.nodes[i]? = some n) (hm : m.armings ctx.generation g.id = n.armings ctx.generation g.id)
    (h : Q w (g.armings ctx.generation ++ rest)) :
    Q w ((g.replace i m).armings ctx.generation ++ rest) := by
  obtain ⟨others, hperm, hreplaced⟩ := Graph.exists_armings_perm ctx.generation hn
  refine hQ.perm (List.Perm.append_right rest ?_) h
  exact hperm.trans (hm ▸ (hreplaced m).symm)

variable [Host H]

section Stages

variable {s : Stage H} {o : Stage H × List PortRef}

/-- A node, possibly with other ports, has reacted. -/
theorem react (hQ : Ledger Q) {i : Nat} {n m : Node} {r : Reaction Behavior}
    (hn : s.graph.nodes[i]? = some n)
    (hm : m.armings ctx.generation s.graph.id = n.armings ctx.generation s.graph.id)
    (h : Q s.world (s.graph.armings ctx.generation ++ rest)) :
    Q (s.react ctx i m r).world ((s.react ctx i m r).graph.armings ctx.generation ++ rest) := by
  obtain ⟨others, hperm, hreplaced⟩ := Graph.exists_armings_perm ctx.generation hn
  have hbefore : Q s.world (m.armings ctx.generation s.graph.id ++ (others ++ rest)) := by
    refine hQ.perm ?_ h
    rw [hm, ← List.append_assoc]
    exact hperm.append_right rest
  refine hQ.perm ?_ (hQ.commands r.commands hbefore)
  rw [← List.append_assoc]
  exact ((hreplaced (m.after r (s.obey ctx m r).1)).append_right rest).symm

/-- An evaluation keeps the books, whatever its outcome. -/
theorem evaluate (hQ : Ledger Q) {i : Nat} {trigger : Trigger}
    (ho : s.EvaluateOutcome ctx i trigger o)
    (h : Q s.world (s.graph.armings ctx.generation ++ rest)) :
    Q o.1.world (o.1.graph.armings ctx.generation ++ rest) := by
  cases ho with
  | missing | failed => exact h
  | reacted hn => exact hQ.react hn rfl h

theorem deliver (hQ : Ledger Q) {value : Value} {target : PortRef}
    (ho : s.DeliverOutcome ctx value target o)
    (h : Q s.world (s.graph.armings ctx.generation ++ rest)) :
    Q o.1.world (o.1.graph.armings ctx.generation ++ rest) := by
  cases ho with
  | missing | unchanged => exact h
  | stored hn | failed hn => exact hQ.replace hn rfl h
  | reacted hn => exact hQ.react hn rfl h

end Stages

variable {r : Runner} {w : World H} {o : Runner × World H}

theorem pass (hQ : Ledger Q) {s : Stage H} (changed : List PortRef)
    (h : Q s.world (s.graph.armings ctx.generation ++ rest)) :
    Q (r.pass ctx s changed).2 ((r.pass ctx s changed).1.graph.armings ctx.generation ++ rest) := by
  obtain ⟨-, hend, -⟩ := Runner.pass_induct ctx
    (I := fun _ (t : Stage H) => Q t.world (t.graph.armings ctx.generation ++ rest))
    (fun _ h => hQ.deliver (Stage.deliver_outcome _ _ _ _) h) r changed h
  exact hend

theorem runnerEvaluate (hQ : Ledger Q) (i : Nat) (trigger : Trigger)
    (h : Q w (r.graph.armings ctx.generation ++ rest)) :
    Q (r.evaluate ctx w i trigger).2
      ((r.evaluate ctx w i trigger).1.graph.armings ctx.generation ++ rest) :=
  hQ.pass _ (hQ.evaluate (Stage.evaluate_outcome ctx ⟨r.graph, w⟩ i trigger) h)

theorem inject (hQ : Ledger Q) {i : Nat} {value : Value} (ho : r.InjectOutcome ctx w i value o)
    (h : Q w (r.graph.armings ctx.generation ++ rest)) :
    Q o.2 (o.1.graph.armings ctx.generation ++ rest) := by
  cases ho with
  | ignored | unchanged => exact h
  | shown hn => exact hQ.pass _ (hQ.replace hn rfl h)

theorem primeNode (hQ : Ledger Q) {i : Nat} (ho : r.PrimeOutcome ctx w i o)
    (h : Q w (r.graph.armings ctx.generation ++ rest)) :
    Q o.2 (o.1.graph.armings ctx.generation ++ rest) := by
  cases ho with
  | skipped => exact h
  | evaluated => exact hQ.runnerEvaluate _ _ h

/-- A fire that is not refused takes its arming away; what it sets going keeps the ledger of the
other armings. -/
theorem onTimer {fire : Fire} (ho : r.TimerOutcome ctx w fire o) :
    o = (r, w) ∧ (∀ i n, r.graph.indexOf? fire.node = some i → r.graph.nodes[i]? = some n →
        n.timers.takeFired? fire.key fire.token = none) ∨
      ∃ ticket others, (r.graph.armings ctx.generation).Perm
          (⟨⟨ctx.generation, r.graph.id, fire.node, fire.key, fire.token⟩, ticket⟩ :: others) ∧
        ∀ {Q : World H → List Arming → Prop} {rest}, Ledger Q → Q w (others ++ rest) →
          Q o.2 (o.1.graph.armings ctx.generation ++ rest) := by
  -- the arming that goes, and those of the node and of the others that stay
  have hreleased : ∀ {i : Nat} {n : Node} {timers : ArmedTimers},
      r.graph.indexOf? fire.node = some i → r.graph.nodes[i]? = some n →
      n.timers.takeFired? fire.key fire.token = some timers → ∃ ticket,
        (r.graph.armings ctx.generation).Perm
          (⟨⟨ctx.generation, r.graph.id, fire.node, fire.key, fire.token⟩, ticket⟩ ::
            (r.release i n timers).graph.armings ctx.generation) := by
    intro i n timers hindex hn htimers
    obtain ⟨t, hkey, htoken, hperm⟩ := ArmedTimers.exists_of_takeFired? htimers
    obtain ⟨others, hbefore, hafter⟩ := Graph.exists_armings_perm ctx.generation hn
    refine ⟨t.ticket, hbefore.trans ?_⟩
    rw [← Graph.id_of_indexOf? hindex hn, ← hkey, ← htoken]
    exact ((hperm.map _).append_right others).trans
      (.cons _ (hafter { n with timers := timers }).symm)
  cases ho with
  | refused h => exact .inl ⟨rfl, h⟩
  | dropped hindex hn htimers =>
    obtain ⟨ticket, hperm⟩ := hreleased hindex hn htimers
    exact .inr ⟨ticket, _, hperm, fun _ h => h⟩
  | evaluated hindex hn htimers =>
    obtain ⟨ticket, hperm⟩ := hreleased hindex hn htimers
    exact .inr ⟨ticket, _, hperm, fun hQ h => hQ.runnerEvaluate _ _ h⟩

end Passes

/-! ### The engine -/

section Engines

variable {e : Engine H}

/-- An update keeps the books where the function does for the entries of its runner. -/
theorem update (hQ : Ledger Q) {i : Nat} {f : Runner → World H → Runner × World H}
    (hf : ∀ {r w rest}, Q w (r.graph.armings e.generation ++ rest) →
      Q (f r w).2 ((f r w).1.graph.armings e.generation ++ rest)) (h : Q e.world e.armings) :
    Q (e.updateRunner i f).world (e.updateRunner i f).armings := by
  unfold Engine.updateRunner
  split
  · exact h
  · next r hr =>
    obtain ⟨others, hperm, hreplaced⟩ :=
      exists_flatMap_perm (fun r : Runner => r.graph.armings e.generation) hr
    exact hQ.perm (hreplaced _).symm (hf (hQ.perm hperm h))

variable [Host H]

/-- So every step of an engine keeps its books. -/
theorem closed (hQ : Ledger Q) : Engine.Closed fun e : Engine H => Q e.world e.armings where
  inject value s h := hQ.update (fun h => hQ.inject (Runner.inject_outcome _ _ _ _ value) h) h
  prime i h := by
    refine hQ.update (fun {r w rest} h => ?_) h
    exact Runner.prime_induct (P := fun state => Q state.2 (state.1.graph.armings _ ++ rest))
      (fun _ _ i h => hQ.primeNode (Runner.primeNode_outcome _ _ _ i) h) h
  quiet hw h := hQ.quiet hw h

omit [Host H] in
/-- Cancelling part after part leaves nothing of the parts. -/
theorem cancelAll {α : Type} {f : World H → α → World H} (part : α → List Arming)
    (hf : ∀ {w a rest}, Q w (part a ++ rest) → Q (f w a) rest) (l : List α) {w : World H}
    {rest : List Arming} (h : Q w (l.flatMap part ++ rest)) : Q (l.foldl f w) rest := by
  induction l generalizing w with
  | nil => exact h
  | cons a l ih =>
    rw [List.flatMap_cons, List.append_assoc] at h
    exact ih (hf h)

omit [Host H] in
/-- Cancelling the timers of a runner strikes out its entries and no others. -/
theorem cancelTimers (hQ : Ledger Q) {w : World H} {r : Runner} {generation : Nat}
    {rest : List Arming} (h : Q w (r.graph.armings generation ++ rest)) :
    Q (Engine.cancelTimers w r) rest := by
  unfold Engine.cancelTimers
  rw [← Array.foldl_toList]
  refine cancelAll (Node.armings generation r.graph.id) (fun {w n rest} h => ?_) _ h
  refine cancelAll (fun t => [t.arming generation r.graph.id n.id])
    (fun h => hQ.cancel _ _ h) _ ?_
  rwa [← List.map_eq_flatMap]

/-- Stopping all graphs cancels every timer. -/
theorem teardown (hQ : Ledger Q) (h : Q e.world e.armings) : Q e.teardown.world [] := by
  have hcancelled : Q (e.runners.foldl Engine.cancelTimers e.world) [] := by
    rw [← Array.foldl_toList]
    refine cancelAll (fun r => r.graph.armings e.generation) hQ.cancelTimers _ ?_
    rwa [List.append_nil]
  exact hQ.quiet ((World.Quiet.unsubscribe_all _ _).trans (.register _ _)) hcancelled

end Engines

end Ledger

/-- A graph that has just been built has armed nothing. -/
theorem Graph.Fresh.armings_eq_nil {g : Graph} (h : g.Fresh) (generation : Nat) :
    g.armings generation = [] := by
  refine List.flatMap_eq_nil_iff.2 fun n hn => ?_
  obtain ⟨j, hj⟩ := List.getElem?_of_mem hn
  rw [Array.getElem?_toList] at hj
  rw [Node.armings, (h.nodes j n hj).timers, List.map_nil]

namespace Engine

variable {H : Type} [Host H] {e : Engine H}

omit [Host H] in
theorem armings_eq_nil (h : e.AllRunners fun _ r => r.graph.Fresh) : e.armings = [] := by
  refine List.flatMap_eq_nil_iff.2 fun r hr => ?_
  obtain ⟨i, hi⟩ := List.getElem?_of_mem hr
  rw [Array.getElem?_toList] at hi
  exact (h i r hi).armings_eq_nil e.generation

theorem fresh_assemble (e : Engine H) (c : Configuration) :
    (e.assemble c).AllRunners fun _ r => r.graph.Fresh := by
  refine AllRunners.assemble fun i g hg => ?_
  exact (fresh_of_mem_buildGraphs (List.mem_of_getElem? hg)).1

/-- A load keeps a ledger: the old armings go, and the new graphs start without any. -/
theorem ledger_install {Q : World H → List Arming → Prop} (hQ : Ledger Q) (c : Configuration)
    (h : Q e.world e.armings) : Q (e.install c).2.world (e.install c).2.armings := by
  refine hQ.closed.install (c := c) ?_
  rw [armings_eq_nil (fresh_assemble e c)]
  exact hQ.teardown h

/-! ### Fires -/

omit [Host H] in
/-- Every entry of an engine is that of an armed timer of one of its nodes. -/
theorem mem_armings {a : Arming} (ha : a ∈ e.armings) :
    ∃ (i : Nat) (r : Runner) (j : Nat) (n : Node) (t : ArmedTimer), e.runners[i]? = some r ∧
      r.graph.nodes[j]? = some n ∧ t ∈ n.timers ∧ t.arming e.generation r.graph.id n.id = a := by
  obtain ⟨r, hr, ha⟩ := List.mem_flatMap.1 ha
  obtain ⟨n, hn, ha⟩ := List.mem_flatMap.1 ha
  obtain ⟨t, ht, ha⟩ := List.mem_map.1 ha
  obtain ⟨i, hi⟩ := List.getElem?_of_mem hr
  obtain ⟨j, hj⟩ := List.getElem?_of_mem hn
  rw [Array.getElem?_toList] at hi hj
  exact ⟨i, r, j, n, t, hi, hj, ht, ha⟩

omit [Host H] in
/-- What a node of a running graph has armed is one of the armings. -/
theorem arming_mem_armings {i j : Nat} {r : Runner} {n : Node} {t : ArmedTimer}
    (hr : e.runners[i]? = some r) (hn : r.graph.nodes[j]? = some n) (ht : t ∈ n.timers) :
    t.arming e.generation r.graph.id n.id ∈ e.armings := by
  refine List.mem_flatMap.2 ⟨r, Array.mem_toList_iff.2 (Array.mem_of_getElem? hr), ?_⟩
  refine List.mem_flatMap.2 ⟨n, Array.mem_toList_iff.2 (Array.mem_of_getElem? hn), ?_⟩
  exact List.mem_map_of_mem ht

omit [Host H] in
/-- An update that changes neither the runner nor the world changes nothing. -/
theorem updateRunner_eq_self {i : Nat} {r : Runner} {f : Runner → World H → Runner × World H}
    (hr : e.runners[i]? = some r) (hf : f r e.world = (r, e.world)) : e.updateRunner i f = e := by
  have hrunners : e.runners.setIfInBounds i r = e.runners := by
    obtain ⟨hi, rfl⟩ := Array.getElem?_eq_some_iff.1 hr
    simp [Array.setIfInBounds, hi]
  unfold updateRunner
  rw [hr]
  dsimp only
  rw [hf, hrunners]

omit [Host H] in
/-- A fire that its node refuses has no arming. -/
theorem fire_ne_of_refused {c : Configuration} (hruns : Runs c e) {fire : Fire} {i : Nat}
    {r : Runner} (hr : e.runners[i]? = some r) (hid : r.graph.id = fire.graph)
    (hrefused : ∀ i n, r.graph.indexOf? fire.node = some i → r.graph.nodes[i]? = some n →
      n.timers.takeFired? fire.key fire.token = none) : ∀ a ∈ e.armings, a.fire ≠ fire := by
  intro a ha hfire
  obtain ⟨k, r', j, n, t, hr', hn, ht, rfl⟩ := mem_armings ha
  subst hfire
  -- the arming belongs to the node that is addressed
  obtain rfl : i = k := hruns.eq_of_id_eq hr hr' hid
  obtain rfl : r = r' := Option.some.inj (hr.symm.trans hr')
  have hindex := (hruns.sound hr).indexOf?_id hn
  exact ArmedTimers.takeFired?_ne_none ht (hrefused j n hindex hn)

/-- A fire that finds no arming of its own changes nothing. Any other takes its arming away, and
what it sets going keeps every ledger of those that remain. -/
theorem handle_timer {c : Configuration} (hruns : Runs c e) (fire : Fire) :
    e.handle (.timer fire) = e ∧ (∀ a ∈ e.armings, a.fire ≠ fire) ∨
      ∃ ticket others, e.armings.Perm (⟨fire, ticket⟩ :: others) ∧
        ∀ {Q : World H → List Arming → Prop}, Ledger Q → Q e.world others →
          Q (e.handle (.timer fire)).world (e.handle (.timer fire)).armings := by
  unfold handle
  dsimp only
  split
  · next hgeneration =>
    -- the fire is from another load than all timers of the running graphs
    left
    refine ⟨rfl, ?_⟩
    intro a ha hfire
    obtain ⟨i, r, j, n, t, -, -, -, rfl⟩ := mem_armings ha
    apply hgeneration
    rw [← hfire]
    rfl
  next hgeneration =>
  rw [not_not] at hgeneration
  split
  · next i hindex =>
    obtain ⟨hi, hid, -⟩ := Array.findIdx?_eq_some_iff_getElem.1 hindex
    obtain ⟨r, hr⟩ : ∃ r, e.runners[i]? = some r := ⟨_, Array.getElem?_eq_getElem hi⟩
    rw [(Array.getElem?_eq_some_iff.1 hr).2, beq_iff_eq] at hid
    rcases Ledger.onTimer (Runner.onTimer_outcome e.context r e.world fire) with
      ⟨hself, hrefused⟩ | ⟨ticket, others, hperm, hkeeps⟩
    · exact .inl ⟨updateRunner_eq_self hr hself, fire_ne_of_refused hruns hr hid hrefused⟩
    · obtain ⟨others', hall, hreplaced⟩ :=
        exists_flatMap_perm (fun r : Runner => r.graph.armings e.generation) hr
      have hfire : (⟨e.generation, r.graph.id, fire.node, fire.key, fire.token⟩ : Fire) = fire := by
        rw [hid, ← hgeneration]
      right
      refine ⟨ticket, others ++ others', ?_, ?_⟩
      · rw [← hfire]
        exact hall.trans (hperm.append_right others')
      · intro Q hQ h
        unfold updateRunner
        rw [hr]
        exact hQ.perm (hreplaced _).symm (hkeeps hQ h)
  · next hnone =>
    left
    refine ⟨rfl, ?_⟩
    intro a ha hfire
    obtain ⟨i, r, j, n, t, hr, -, -, rfl⟩ := mem_armings ha
    have hother := Array.findIdx?_eq_none_iff.1 hnone r (Array.mem_of_getElem? hr)
    rw [← hfire] at hother
    simp [ArmedTimer.arming] at hother

end Engine

end SignalGraph
