import SignalGraph.Proofs.Engine.Chronicle

/-!
# What nodes see of the time

Whenever something happens to a node, the node sees the next tick come so many milliseconds after
the next full minute of local time as the settings of the engine say, and these never change
(`Engine.Graced.run`).
-/

namespace SignalGraph

variable {H : Type}

/-- The next tick comes so many milliseconds after the next full minute. -/
def Reading.Graced (grace : Nat) (r : Reading) : Prop :=
  r.untilTick = r.localNow.untilNextMinute + grace

/-! ### Graphs -/

/-- The nodes of a graph see the next tick come as the settings say. -/
def Noted (ctx : LoadContext) (notes : List (Nat × Episode)) : Prop :=
  ∀ note ∈ notes, note.2.reading.Graced ctx.settings.minuteGrace

namespace Noted

variable {ctx : LoadContext} {notes notes' : List (Nat × Episode)}

theorem nil : Noted ctx [] :=
  nofun

theorem append (h : Noted ctx notes) (h' : Noted ctx notes') : Noted ctx (notes ++ notes') :=
  List.forall_mem_append.2 ⟨h, h'⟩

/-- Something is noted down on a stage, and what follows it. -/
theorem cons (s : Stage H) (i : Nat) (occasion : Occasion) (commands : List Command)
    (h : Noted ctx notes) : Noted ctx ((i, s.episode ctx occasion commands) :: notes) :=
  List.forall_mem_cons.2 ⟨rfl, h⟩

end Noted

section Graphs

variable [Host H] (ctx : LoadContext)

namespace Stage

variable (s : Stage H)

omit [Host H] in
/-- A delivery is noted with the readings of its context. -/
theorem noted_delivery (value : Value) (target : PortRef) :
    Noted ctx (s.delivery ctx value target) := by
  unfold delivery
  split
  · exact .nil
  · split
    · exact .nil
    · exact .cons s _ _ _ .nil

theorem noted_course (steps : Nat) (f : Frontier) : Noted ctx (s.course ctx steps f) := by
  induction steps generalizing f s with
  | zero =>
    unfold course
    cases f.next? s.graph <;> exact .nil
  | succ steps ih =>
    unfold course
    cases f.next? s.graph with
    | none => exact .nil
    | some due => exact (noted_delivery ctx s due.1 due.2.1).append (ih _ _)

theorem noted_evaluationCourse (i : Nat) (occasion : Occasion) (trigger : Trigger) :
    Noted ctx (s.evaluationCourse ctx i occasion trigger) :=
  .cons s i occasion _ (noted_course ctx _ _ _)

end Stage

namespace Runner

variable (r : Runner) (w : World H)

theorem noted_primingCourse (state : Runner × World H) (i : Nat) :
    Noted ctx (primingCourse ctx state i) := by
  unfold primingCourse
  split
  · exact .nil
  · split
    · exact Stage.noted_evaluationCourse ctx _ i _ _
    · exact .nil

theorem noted_receptionCourse (i : Nat) (value : Value) :
    Noted ctx (r.receptionCourse ctx w i value) := by
  unfold receptionCourse
  split
  · exact .nil
  · split
    · split
      · exact .nil
      · exact .cons _ i _ _ (Stage.noted_course ctx _ _ _)
    · exact .nil

theorem noted_fireCourse (fire : Fire) : Noted ctx (r.fireCourse ctx w fire) := by
  unfold fireCourse
  split
  · exact .nil
  split
  · exact .nil
  split
  · split
    · exact Stage.noted_evaluationCourse ctx _ _ _ _
    · exact .cons _ _ _ _ .nil
  · exact .nil

/-- Whatever the task, what it does is noted. -/
theorem noted_course (task : Task) : Noted ctx (r.course ctx w task) := by
  cases task with
  | receive i value => exact r.noted_receptionCourse ctx w i value
  | fire fire => exact r.noted_fireCourse ctx w fire
  | prime =>
    exact @foldNotes_induct _ _ _ (primeNode ctx) (primingCourse ctx)
      (fun _ notes _ => Noted ctx notes) (fun _ => .nil) Noted.append
      (List.range r.graph.nodes.size) (fun state i _ => noted_primingCourse ctx state i) (r, w)

end Runner

end Graphs

/-! ### Runs -/

namespace Engine

variable {e e' e'' : Engine H} {entries entries' : List Entry}

/-- On the way from `e` to `e'`, the nodes see the next tick come as the settings say, and those
stay the same. -/
structure Graced (e : Engine H) (entries : List Entry) (e' : Engine H) : Prop where
  settings_eq : e'.settings = e.settings
  graced : ∀ entry ∈ entries, entry.episode.reading.Graced e.settings.minuteGrace

namespace Graced

theorem nil (h : e'.settings = e.settings) : e.Graced [] e' :=
  ⟨h, nofun⟩

theorem trans (h : e.Graced entries e') (h' : e'.Graced entries' e'') :
    e.Graced (entries ++ entries') e'' :=
  ⟨h'.settings_eq.trans h.settings_eq,
    List.forall_mem_append.2 ⟨h.graced, h.settings_eq ▸ h'.graced⟩⟩

variable [Host H]

/-- A job notes its episodes with the grace of the engine. -/
theorem perform (e : Engine H) (job : Job) : e.Graced (e.jobCourse job) (e.perform job) := by
  unfold Engine.perform updateRunner jobCourse
  cases e.runners[job.runner]? with
  | none => exact nil rfl
  | some r =>
    refine ⟨rfl, fun entry hentry => ?_⟩
    obtain ⟨note, hnote, rfl⟩ := List.mem_map.1 hentry
    exact r.noted_course e.context e.world job.task note hnote

theorem performAll (e : Engine H) (jobs : List Job) :
    e.Graced (e.jobsCourse jobs) (jobs.foldl Engine.perform e) :=
  foldNotes_induct (fun _ => nil rfl) (fun h h' => h.trans h') (fun e job _ => perform e job) e

theorem install (e : Engine H) (c : Configuration) :
    e.Graced (e.installCourse c) (e.install c).2 := by
  have hassembled : e.Graced [] (e.assemble c) := nil rfl
  exact hassembled.trans (install_induct (fun _ => nil rfl) (fun h h' => h.trans h')
    (fun _ _ => nil rfl) (fun e job _ => perform e job) e c)

/-- Every action notes its episodes with the grace of the engine, which a load leaves alone. -/
theorem act (e : Engine H) (a : Action H) : e.Graced (e.actionCourse a) (e.act a) := by
  cases a with
  | install c => exact install e c
  | stop | post | outside => exact nil rfl
  | turn =>
    unfold actionCourse Engine.act turn?
    cases e.world.queue with
    | nil => exact nil rfl
    | cons event rest =>
      have hwaiting : e.Graced [] (e.withQueue rest) := nil rfl
      have hjobs := performAll (e.withQueue rest) ((e.withQueue rest).jobs event)
      rw [← handle_eq] at hjobs
      exact hwaiting.trans hjobs

/-- In every run, the nodes see the next tick come as the settings say. -/
theorem run (e : Engine H) (as : List (Action H)) : e.Graced (e.chronicle as) (e.run as) :=
  foldNotes_induct (fun _ => nil rfl) (fun h h' => h.trans h') (fun e a _ => act e a) e

end Graced

end Engine

end SignalGraph
