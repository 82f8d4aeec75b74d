import SignalGraph.Proofs.Engine.Observed
import SignalGraph.Proofs.Engine.Share
import SignalGraph.Proofs.Engine.Tied

/-!
# Engines abreast

An engine that runs a configuration and one that runs a single graph of it are abreast
(`Engine.Abreast`) if that graph is in the same state in both, up to tokens and tickets, and their
worlds are tied. They stay abreast when both do a job for the graph (`Abreast.perform_own`), when
the first one does a job for another graph (`Abreast.perform_other`), and when timers fall due
(`Abreast.fire_own`, `Abreast.fire_other`). On the way, the nodes of the graph make the same calls.
-/

namespace SignalGraph

/-! ### Tasks -/

section Tasks

variable {H : Type} [Host H] {ctx : LoadContext} {r : Runner} {w : World H} {task : Task}

theorem Coupling.perform {K : Type} [Host K] {graph : String}
    {Q : World H → World K → List (Arming × Arming) → Prop} {r' : Runner} {w' : World K}
    (hQ : Coupling ctx ctx graph Q) (h : Coupling.Runners ctx ctx graph Q (r, w) (r', w'))
    (htask : ∀ fire, task ≠ .fire fire) :
    Coupling.Runners ctx ctx graph Q (r.perform ctx w task) (r'.perform ctx w' task) := by
  cases task with
  | receive node value => exact hQ.inject h node value
  | prime => exact hQ.prime h
  | fire fire => exact (htask fire rfl).elim

theorem World.Keeps.perform {P : World H → List Arming → Prop} (hP : Keeps ctx r.graph.id P)
    (htask : ∀ fire, task ≠ .fire fire) (hw : P w (r.graph.armings ctx.generation)) :
    P (r.perform ctx w task).2 ((r.perform ctx w task).1.graph.armings ctx.generation) := by
  cases task with
  | receive node value => exact hP.inject node value hw
  | prime => exact hP.prime hw
  | fire fire => exact (htask fire rfl).elim

end Tasks

/-- The timers of a graph are addressed to it. -/
theorem Graph.address_of_mem_armings {g : Graph} {generation : Nat} {a : Arming}
    (ha : a ∈ g.armings generation) : a.fire.generation = generation ∧ a.fire.graph = g.id := by
  obtain ⟨n, -, ha⟩ := List.mem_flatMap.1 ha
  obtain ⟨t, -, rfl⟩ := List.mem_map.1 ha
  exact ⟨rfl, rfl⟩

namespace Engine

section Updates

variable {H : Type} {e : Engine H} {i : Nat} {r : Runner} {graph : String}

/-- The timers of all graphs but the one with this id. -/
def foreign (graph : String) (e : Engine H) : List Arming :=
  e.armings.filter fun a => a.fire.graph != graph

theorem filter_armings (g : Graph) (generation : Nat) :
    ((g.armings generation).filter fun a => a.fire.graph != graph) =
      if g.id = graph then [] else g.armings generation := by
  split
  · next hid =>
    refine List.filter_eq_nil_iff.2 fun a ha => ?_
    rw [(Graph.address_of_mem_armings ha).2, hid, bne_self_eq_false]
    exact Bool.false_ne_true
  · next hid =>
    refine List.filter_eq_self.2 fun a ha => bne_iff_ne.2 ?_
    rw [(Graph.address_of_mem_armings ha).2]
    exact hid

/-- A graph that changes accounts for its own timers only. -/
theorem exists_foreign_perm (graph : String) (hr : e.runners[i]? = some r) : ∃ rest,
    (e.foreign graph).Perm
      ((if r.graph.id = graph then [] else r.graph.armings e.generation) ++ rest) ∧
    ∀ (r₂ : Runner) (w : World H), r₂.graph.id = r.graph.id →
      (foreign graph { e with runners := e.runners.setIfInBounds i r₂, world := w }).Perm
        ((if r.graph.id = graph then [] else r₂.graph.armings e.generation) ++ rest) := by
  obtain ⟨rest, hperm, hreplaced⟩ :=
    exists_flatMap_perm (fun r : Runner => r.graph.armings e.generation) hr
  refine ⟨rest.filter fun a => a.fire.graph != graph, ?_, fun r₂ w hid => ?_⟩
  · have hfilter := hperm.filter fun a => a.fire.graph != graph
    rwa [List.filter_append, filter_armings] at hfilter
  · have hfilter := (hreplaced r₂).filter fun a => a.fire.graph != graph
    rwa [List.filter_append, filter_armings, hid] at hfilter

end Updates

theorem Runs.perform {H : Type} [Host H] {e : Engine H} {c : Configuration} (h : Runs c e)
    (job : Job) : Runs c (e.perform job) :=
  AllRunners.update (fun _ hr => (kept_runs c job.runner).perform job.task hr) (fun _ hr => hr) h

/-- The engine with another clock. -/
def withClock {H : Type} (e : Engine H) (t : Timeline Fire) : Engine H :=
  { e with world := { e.world with clock := t } }

/-- A fire of a running graph is a job for it. -/
theorem jobs_timer {H : Type} {e : Engine H} {c : Configuration} {i : Nat} {r : Runner}
    {fire : Fire} (h : Runs c e) (hr : e.runners[i]? = some r)
    (hgeneration : fire.generation = e.generation) (hgraph : fire.graph = r.graph.id) :
    e.jobs (.timer fire) = [⟨i, .fire fire⟩] := by
  have hindex : (e.runners.findIdx? fun r => r.graph.id == fire.graph) = some i := by
    refine findIdx?_eq_some_of_unique hr (beq_iff_eq.2 hgraph.symm) fun hr' hid => ?_
    exact h.eq_of_id_eq hr' hr ((beq_iff_eq.1 hid).trans hgraph)
  unfold jobs
  dsimp only
  rw [if_neg (not_not.2 hgeneration), hindex]
  rfl

/-- The graph with this id, number `k` of those that `e` runs for `c`, is the only one that `e'`
runs. It is in the same state in both. -/
structure Abreast (graph : String) (k : Nat) (c : Configuration) (r r' : Runner)
    (e e' : Engine (Logged MemoryHost)) : Prop where
  runs : Runs c e
  context_eq : e'.context = e.context
  sorted : e.subscribers.Sorted
  subscribers_eq : e'.subscribers = ownTable k e.subscribers
  runner : e.runners[k]? = some r
  runners_eq' : e'.runners = #[r']
  id_eq : r.graph.id = graph
  twins : r.graph.Twin r'.graph
  lastSteps_eq : r'.lastSteps = r.lastSteps
  truncatedPasses_eq : r'.truncatedPasses = r.truncatedPasses
  tied : World.Tied graph e.world e'.world
    (r.graph.pairings e.generation e.generation r'.graph) (e.foreign graph)

namespace Abreast

variable {graph : String} {k : Nat} {c : Configuration} {r r' : Runner}
  {e e' : Engine (Logged MemoryHost)} {signals : String → Prop}

theorem generation_eq (h : Abreast graph k c r r' e e') : e'.generation = e.generation :=
  congrArg LoadContext.generation h.context_eq

theorem runner' (h : Abreast graph k c r r' e e') : e'.runners[0]? = some r' := by
  rw [h.runners_eq']
  rfl

theorem id_eq' (h : Abreast graph k c r r' e e') : r'.graph.id = graph :=
  h.twins.id_eq.trans h.id_eq

/-- No other running graph has the id. -/
theorem id_ne (h : Abreast graph k c r r' e e') {i : Nat} {r₂ : Runner}
    (hr : e.runners[i]? = some r₂) (hi : i ≠ k) : r₂.graph.id ≠ graph := by
  intro hid
  exact hi (h.runs.eq_of_id_eq hr h.runner (hid.trans h.id_eq.symm))

/-! ### Jobs of the graph -/

/-- Both engines after the graph has done the same in both. -/
theorem of_perform {elapsed : Nat} {log log' : List HostEntry} (h : Abreast graph k c r r' e e')
    (t t' : Timeline Fire) {task task' : Task}
    (hdone : Coupling.Runners e.context e.context graph
      (World.Lockstep graph signals (e.foreign graph) elapsed log log')
      (r.perform e.context (e.withClock t).world task)
      (r'.perform e.context (e'.withClock t').world task')) :
    ∃ r₂ r₂', Abreast graph k c r₂ r₂' ((e.withClock t).perform ⟨k, task⟩)
        ((e'.withClock t').perform ⟨0, task'⟩) ∧
      World.Lockstep graph signals (e.foreign graph) elapsed log log'
        ((e.withClock t).perform ⟨k, task⟩).world ((e'.withClock t').perform ⟨0, task'⟩).world
        (r₂.graph.pairings e.generation e.generation r₂'.graph) := by
  have hperform : (e'.withClock t').perform ⟨0, task'⟩ =
      (e'.withClock t').updateRunner 0 fun r w => r.perform e.context w task' := by
    unfold perform
    rw [show (e'.withClock t').context = e.context from h.context_eq]
  obtain ⟨rest, hbefore, hafter⟩ := exists_foreign_perm graph h.runner
  have hid := hdone.stages.id_eq
  have hforeign := hafter (r.perform e.context (e.withClock t).world task).1
    (r.perform e.context (e.withClock t).world task).2 (hid.trans h.id_eq.symm)
  rw [if_pos h.id_eq] at hbefore hforeign
  have hruns : Runs c ((e.withClock t).perform ⟨k, task⟩) :=
    Runs.perform (e := e.withClock t) h.runs ⟨k, task⟩
  rw [hperform, updateRunner_eq (e := e'.withClock t') h.runner']
  rw [perform, updateRunner_eq (e := e.withClock t) h.runner] at hruns ⊢
  refine ⟨_, _, ⟨hruns, h.context_eq, h.sorted, h.subscribers_eq, ?_, ?_, hid, hdone.stages.twins,
    hdone.lastSteps_eq, hdone.truncatedPasses_eq, ?_⟩, hdone.stages.worlds⟩
  · exact getElem?_setIfInBounds_of_some h.runner
  · show e'.runners.setIfInBounds 0 _ = _
    rw [h.runners_eq']
    rfl
  · exact hdone.stages.worlds.tied.perm (.refl _) (hbefore.trans hforeign.symm)

/-- Both engines do a job for the graph. -/
theorem perform_own (h : Abreast graph k c r r' e e')
    (helapsed : e'.world.clock.elapsed = e.world.clock.elapsed)
    (hvalues : ∀ signal, signals signal →
      e'.world.host.host.value? signal = e.world.host.host.value? signal)
    {task : Task} (htask : ∀ fire, task ≠ .fire fire) :
    ∃ r₂ r₂', Abreast graph k c r₂ r₂' (e.perform ⟨k, task⟩) (e'.perform ⟨0, task⟩) ∧
      World.Lockstep graph signals (e.foreign graph) e.world.clock.elapsed e.world.host.log
        e'.world.host.log (e.perform ⟨k, task⟩).world (e'.perform ⟨0, task⟩).world
        (r₂.graph.pairings e.generation e.generation r₂'.graph) := by
  have hrunners : Coupling.Runners e.context e.context graph
      (World.Lockstep graph signals (e.foreign graph) e.world.clock.elapsed e.world.host.log
        e'.world.host.log) (r, e.world) (r', e'.world) :=
    ⟨⟨h.id_eq, h.twins, h.tied.lockstep helapsed hvalues⟩, h.lastSteps_eq, h.truncatedPasses_eq⟩
  exact h.of_perform e.world.clock e'.world.clock
    ((World.coupling_lockstep _ _ _ _ _ _ _).perform hrunners htask)

/-! ### Jobs of other graphs -/

/-- The first engine after another graph has changed. -/
theorem of_other {i : Nat} {r₂ : Runner} {w : World (Logged MemoryHost)}
    (h : Abreast graph k c r r' e e') (hi : i ≠ k)
    (hruns : Runs c { e with runners := e.runners.setIfInBounds i r₂, world := w })
    (htied : World.Tied graph w e'.world (r.graph.pairings e.generation e.generation r'.graph)
      (foreign graph { e with runners := e.runners.setIfInBounds i r₂, world := w })) :
    Abreast graph k c r r' { e with runners := e.runners.setIfInBounds i r₂, world := w } e' :=
  { h with
    runs := hruns
    runner := (Array.getElem?_setIfInBounds_ne hi).trans h.runner
    tied := htied }

/-- The first engine does a job for another graph. -/
theorem perform_other (h : Abreast graph k c r r' e e') {job : Job} (hjob : job.runner ≠ k)
    (htask : ∀ fire, job.task ≠ .fire fire) :
    Abreast graph k c r r' (e.perform job) e' ∧
      (e.perform job).world.clock.elapsed = e.world.clock.elapsed := by
  obtain ⟨i, task⟩ := job
  cases hr : e.runners[i]? with
  | none =>
    unfold perform updateRunner
    rw [hr]
    exact ⟨h, rfl⟩
  | some r₂ =>
    have hid : r₂.graph.id ≠ graph := h.id_ne hr hjob
    obtain ⟨rest, hbefore, hafter⟩ := exists_foreign_perm graph hr
    rw [if_neg hid] at hbefore
    have hkept := (World.keeps_tied hid e.context e'.world
        (r.graph.pairings e.generation e.generation r'.graph) rest e.world.clock.elapsed).perform
      htask ⟨h.tied.perm (.refl _) hbefore, rfl⟩
    have hforeign := hafter (r₂.perform e.context e.world task).1
      (r₂.perform e.context e.world task).2 (r₂.id_perform e.world task)
    rw [if_neg hid] at hforeign
    have hruns := h.runs.perform ⟨i, task⟩
    rw [perform, updateRunner_eq hr] at hruns ⊢
    exact ⟨h.of_other hjob hruns (hkept.1.perm (.refl _) hforeign.symm), hkept.2⟩

/-! ### Timers that fall due -/

/-- A timer of the graph falls due: it fires in both engines. -/
theorem fire_own {target : Nat} {fire : Fire} {t : Timeline Fire} (h : Abreast graph k c r r' e e')
    (hpop : e.world.clock.popDue? target = some (fire, t)) (hown : fire.graph = graph) :
    ∃ fire' t' r₂ r₂' entries, e'.world.clock.popDue? target = some (fire', t') ∧
      (e.withClock t).jobs (.timer fire) = [⟨k, .fire fire⟩] ∧
      (e'.withClock t').jobs (.timer fire') = [⟨0, .fire fire'⟩] ∧
      Abreast graph k c r₂ r₂' ((e.withClock t).perform ⟨k, .fire fire⟩)
        ((e'.withClock t').perform ⟨0, .fire fire'⟩) ∧
      ((e.withClock t).perform ⟨k, .fire fire⟩).world.host.log = e.world.host.log ++ entries ∧
      ((e'.withClock t').perform ⟨0, .fire fire'⟩).world.host.log = e'.world.host.log ++ entries ∧
      ((e.withClock t).perform ⟨k, .fire fire⟩).world.clock.elapsed ≤ target := by
  obtain ⟨ticket, fire', ticket', t', rest, hperm, hpop', htied, helapsed, hle⟩ :=
    h.tied.fallDue hpop hown
  obtain rfl := h.id_eq
  obtain ⟨hfire, hfire'⟩ := h.twins.fire_eq (hperm.symm.subset List.mem_cons_self)
  have hgeneration : fire.generation = e.generation := congrArg Fire.generation hfire
  have hgeneration' : fire'.generation = e'.generation :=
    (congrArg Fire.generation hfire').trans h.generation_eq.symm
  have hgraph' : r'.graph.id = fire'.graph := h.twins.id_eq.trans (congrArg Fire.graph hfire').symm
  -- a fire reads no signal, so the values of the two hosts need not agree
  have hstart : World.Lockstep r.graph.id (fun _ => False) (e.foreign r.graph.id) t.elapsed
      e.world.host.log e'.world.host.log (e.withClock t).world (e'.withClock t').world rest :=
    htied.lockstep helapsed fun _ hsignal => hsignal.elim
  have hdone := Coupling.onTimer_of_pair (World.coupling_lockstep e.context _ _ _ _ _ _) h.twins
    (h.runs.sound h.runner) h.lastSteps_eq h.truncatedPasses_eq hperm hstart
  have hjobs' : (e'.withClock t').jobs (.timer fire') = [⟨0, .fire fire'⟩] := by
    unfold jobs withClock
    dsimp only
    rw [if_neg (not_not.2 hgeneration'), h.runners_eq']
    simp [hgraph']
  obtain ⟨r₂, r₂', habreast, hlockstep⟩ :=
    h.of_perform t t' (show Coupling.Runners _ _ _ _ (r.perform e.context _ (.fire fire))
      (r'.perform e.context _ (.fire fire')) from hdone)
  obtain ⟨entries, hlog, hlog'⟩ := hlockstep.exists_entries
  exact ⟨fire', t', r₂, r₂', entries, hpop',
    jobs_timer (e := e.withClock t) h.runs h.runner hgeneration hown, hjobs', habreast, hlog, hlog',
    hlockstep.elapsed_eq.trans_le hle⟩

/-- A timer of another graph falls due: it fires in the first engine. -/
theorem fire_other {target : Nat} {fire : Fire} {t : Timeline Fire}
    (h : Abreast graph k c r r' e e')
    (hpop : e.world.clock.popDue? target = some (fire, t)) (hother : fire.graph ≠ graph) :
    ∃ i, i ≠ k ∧ (e.withClock t).jobs (.timer fire) = [⟨i, .fire fire⟩] ∧
      Abreast graph k c r r' ((e.withClock t).perform ⟨i, .fire fire⟩) e' ∧
      ((e.withClock t).perform ⟨i, .fire fire⟩).world.clock.elapsed ≤ target := by
  obtain ⟨ticket, rest, hperm, htied, hle⟩ := h.tied.fallDue_other hpop hother
  -- the graph that has armed the timer
  have hmem : (⟨fire, some ticket⟩ : Arming) ∈ e.armings :=
    (List.mem_filter.1 (hperm.symm.subset List.mem_cons_self)).1
  obtain ⟨r₂, hr₂, harmed⟩ := List.mem_flatMap.1 hmem
  obtain ⟨i, hi⟩ := List.getElem?_of_mem hr₂
  rw [Array.getElem?_toList] at hi
  obtain ⟨hgeneration, hgraph⟩ := Graph.address_of_mem_armings harmed
  have hid : r₂.graph.id ≠ graph := hgraph ▸ hother
  have hik : i ≠ k := by
    rintro rfl
    cases hi.symm.trans h.runner
    exact hid h.id_eq
  obtain ⟨others, hbefore, hafter⟩ := exists_foreign_perm graph hi
  rw [if_neg hid] at hbefore
  obtain ⟨left, right, hsplit⟩ := List.append_of_mem harmed
  have hfirst : (r₂.graph.armings e.generation).Perm (⟨fire, some ticket⟩ :: (left ++ right)) :=
    hsplit ▸ List.perm_middle
  have hrest : rest.Perm ((left ++ right) ++ others) :=
    (hperm.symm.trans (hbefore.trans (hfirst.append_right others))).cons_inv
  have hkept := (World.keeps_tied hid e.context e'.world
      (r.graph.pairings e.generation e.generation r'.graph) others t.elapsed).onTimer_of_perm
    (h.runs.sound hi) hfirst (w := (e.withClock t).world) ⟨htied.perm (.refl _) hrest, rfl⟩
  have hforeign := hafter (r₂.perform e.context (e.withClock t).world (.fire fire)).1
    (r₂.perform e.context (e.withClock t).world (.fire fire)).2
    (r₂.id_perform (e.withClock t).world (.fire fire))
  rw [if_neg hid] at hforeign
  have hruns : Runs c ((e.withClock t).perform ⟨i, .fire fire⟩) :=
    Runs.perform (e := e.withClock t) h.runs ⟨i, .fire fire⟩
  refine ⟨i, hik, jobs_timer (e := e.withClock t) h.runs hi hgeneration hgraph, ?_⟩
  rw [perform, updateRunner_eq (e := e.withClock t) hi] at hruns ⊢
  exact ⟨h.of_other hik hruns (hkept.1.perm (.refl _) hforeign.symm), hkept.2.trans_le hle⟩

end Abreast

end Engine

end SignalGraph
