import SignalGraph.Proofs.Engine.Run
import SignalGraph.Proofs.Engine.Subscribers

/-!
# Jobs

All that the engine does to its running graphs is done in jobs, one graph at a time: an event is
handled by its jobs (`Engine.handle_eq`), and a load gives values to input bridges and primes the
graphs (`Engine.connect_eq_jobs`, `Engine.primeAll_eq_jobs`).
-/

namespace SignalGraph

/-- What is done to a running graph. -/
inductive Task where
  /-- An input bridge receives a value of its signal. -/
  | receive (node : Nat) (value : Value)
  /-- All nodes are evaluated after a load. -/
  | prime
  /-- A timer fires. -/
  | fire (fire : Fire)

/-- Does a task. -/
def Runner.perform {H : Type} [Host H] (ctx : LoadContext) (r : Runner) (w : World H) :
    Task → Runner × World H
  | .receive node value => r.inject ctx w node value
  | .prime => r.prime ctx w
  | .fire fire => r.onTimer ctx w fire

namespace Runner

variable {H : Type} [Host H] {ctx : LoadContext} {r : Runner} {w : World H}

theorem Kept.perform {P : Runner → Prop} (hP : Kept H P) (task : Task) (h : P r) :
    P (r.perform ctx w task).1 := by
  cases task with
  | receive node value => exact hP.inject ctx w node value h
  | prime => exact hP.prime h
  | fire fire => exact hP.onTimer ctx w fire h

theorem id_perform (r : Runner) (w : World H) (task : Task) :
    (r.perform ctx w task).1.graph.id = r.graph.id :=
  ((kept_along r.graph).perform task (.refl _)).id_eq

end Runner

namespace Engine

/-- A task for the running graph with a number. -/
structure Job where
  runner : Nat
  task : Task

variable {H : Type} [Host H]

def perform (e : Engine H) (job : Job) : Engine H :=
  e.updateRunner job.runner fun r w => r.perform e.context w job.task

/-- The jobs of giving a value to input bridges. -/
def deliveries (subscribers : List Subscriber) (value : Value) : List Job :=
  subscribers.map fun s => ⟨s.runner, .receive s.node value⟩

/-- The jobs of giving a value, if there is one, to input bridges. -/
def arrivals (subscribers : List Subscriber) (value? : Option Value) : List Job :=
  value?.elim [] (deliveries subscribers)

/-- The jobs of priming so many graphs. -/
def primings (n : Nat) : List Job :=
  (List.range n).map fun i => ⟨i, .prime⟩

/-- The jobs of an event. -/
def jobs (e : Engine H) : Event → List Job
  | .change c => deliveries (receivers e.subscribers c.signal) c.value
  | .timer fire =>
    if fire.generation ≠ e.generation then []
    else
      ((e.runners.findIdx? fun r => r.graph.id == fire.graph).map fun i => ⟨i, .fire fire⟩).toList

theorem injectAll_eq (e : Engine H) (subscribers : List Subscriber) (value : Value) :
    e.injectAll subscribers value = (deliveries subscribers value).foldl perform e := by
  rw [deliveries, List.foldl_map]
  rfl

/-- An event is handled by its jobs. -/
theorem handle_eq (e : Engine H) (event : Event) :
    e.handle event = (e.jobs event).foldl perform e := by
  cases event with
  | change c =>
    unfold handle jobs receivers
    dsimp only
    cases e.subscribers.find? c.signal with
    | none => rfl
    | some subscribers => exact e.injectAll_eq subscribers c.value
  | timer fire =>
    unfold handle jobs
    dsimp only
    split
    · rfl
    · cases e.runners.findIdx? fun r => r.graph.id == fire.graph <;> rfl

/-- A signal that a load connects brings jobs if it has a value. -/
theorem connect_eq_jobs (e : Engine H) (entry : String × List Subscriber) :
    e.connect entry =
      (arrivals entry.2 (e.initialValue? entry.1)).foldl perform (e.subscribed entry.1) := by
  rw [connect_eq]
  cases e.initialValue? entry.1 with
  | none => rfl
  | some value => exact injectAll_eq _ _ _

/-- The jobs that end a load. -/
theorem primeAll_eq_jobs (e : Engine H) (n : Nat) :
    (List.range n).foldl primeRunner e = (primings n).foldl perform e := by
  rw [primings, List.foldl_map]
  rfl

/-! ### Jobs in which no timer fires -/

theorem task_ne_of_mem_deliveries {subscribers : List Subscriber} {value : Value} {job : Job}
    (h : job ∈ deliveries subscribers value) (fire : Fire) : job.task ≠ .fire fire := by
  obtain ⟨s, -, rfl⟩ := List.mem_map.1 h
  exact Task.noConfusion

theorem task_ne_of_mem_arrivals {subscribers : List Subscriber} {value? : Option Value} {job : Job}
    (h : job ∈ arrivals subscribers value?) (fire : Fire) : job.task ≠ .fire fire := by
  cases value? with
  | none => cases h
  | some value => exact task_ne_of_mem_deliveries h fire

theorem task_ne_of_mem_primings {n : Nat} {job : Job} (h : job ∈ primings n) (fire : Fire) :
    job.task ≠ .fire fire := by
  obtain ⟨i, -, rfl⟩ := List.mem_map.1 h
  exact Task.noConfusion

end Engine

end SignalGraph
