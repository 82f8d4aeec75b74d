import SignalGraph.Proofs.Engine.Chronicle

/-!
# Transcripts

The transcript of a run lists everything that happens to the nodes of the running graphs, like its
chronicle, but with the stage on which it happens, so that the host and the other nodes can be seen
as they are at that moment. What happens to a node, and what becomes of the stage, follows from the
stage and the occasion alone (`Occurrence.next`). Read without the stages, the transcript of the
time since a load is its chronicle (`Engine.reads_since_load`).
-/

namespace SignalGraph

/-- Notes may be abridged before or after they are collected. -/
theorem map_foldNotes {σ α β γ : Type} (g : β → γ) (f : σ → α → σ) (note : σ → α → List β) (s : σ)
    (l : List α) :
    (foldNotes f note s l).map g = foldNotes f (fun s a => (note s a).map g) s l := by
  induction l generalizing s with
  | nil => rfl
  | cons a rest ih => rw [foldNotes, foldNotes, List.map_append, ih]

/-! ### Occurrences -/

namespace Occasion

/-- Why the node is evaluated. -/
def trigger : Occasion → Trigger
  | .fired timer => .timer timer.key
  | .input .. | .primed | .received _ => .inputs

/-- What becomes of a node before it is evaluated. -/
def prepare (n : Node) : Occasion → Node
  | .input port value => n.receive port value
  | .primed => n
  | .fired timer => { n with timers := (n.timers.takeFired? timer.key timer.token).getD n.timers }
  | .received value =>
    match n.behavior.inputBridge? with
    | some bridge => n.showing (bridge.cast.apply value)
    | none => n

/-- A value that an input bridge receives is shown without an evaluation. -/
def isReceived : Occasion → Bool
  | .received _ => true
  | .input .. | .primed | .fired _ => false

/-- A timer fires. -/
def isFired : Occasion → Bool
  | .fired _ => true
  | .input .. | .primed | .received _ => false

theorem trigger_eq_inputs {occasion : Occasion} (h : occasion.isFired = false) :
    occasion.trigger = .inputs := by
  cases occasion with
  | fired timer => cases h
  | input | primed | received => rfl

/-- Nothing that comes before an evaluation changes the behaviour. -/
theorem behavior_prepare (n : Node) (occasion : Occasion) :
    (occasion.prepare n).behavior = n.behavior := by
  cases occasion with
  | input | primed | fired => rfl
  | received value =>
    unfold prepare
    cases n.behavior.inputBridge? <;> rfl

/-- Only the timer that fires is taken away before the node is evaluated. -/
theorem timers_prepare {occasion : Occasion} (h : occasion.isFired = false) (n : Node) :
    (occasion.prepare n).timers = n.timers := by
  cases occasion with
  | fired timer => cases h
  | input | primed => rfl
  | received value =>
    unfold prepare
    cases n.behavior.inputBridge? <;> rfl

/-- This can happen to the node. -/
inductive Suits (n : Node) : Occasion → Prop
  | input {port : Nat} {value : Value} (hdiffers : (n.ports.inputAt port).same value = false) :
    Suits n (.input port value)
  | primed (henabled : n.enabled = true) (hbridge : n.behavior.inputBridge? = none) :
    Suits n .primed
  | fired {timer : ArmedTimer} {timers : ArmedTimers}
    (htimers : n.timers.takeFired? timer.key timer.token = some timers)
    (hperm : n.timers.Perm (timer :: timers)) (hsub : timers.Sublist n.timers) :
    Suits n (.fired timer)
  | received {bridge : InputBridge} {value : Value} (henabled : n.enabled = true)
    (hbridge : n.behavior.inputBridge? = some bridge) : Suits n (.received value)

end Occasion

/-- Something that happens to a node of a graph. -/
structure Occurrence (H : Type) where
  /-- The stage just before. -/
  stage : Stage H
  /-- The number of the node. -/
  node : Nat
  occasion : Occasion

variable {H : Type} [Host H]

namespace Occurrence

variable (ctx : LoadContext) (o : Occurrence H)

/-- The node before. -/
def before? : Option Node :=
  o.stage.graph.nodes[o.node]?

/-- The stage on which the node is evaluated. -/
def prepared : Stage H :=
  match o.before? with
  | none => o.stage
  | some n => { o.stage with graph := o.stage.graph.replace o.node (o.occasion.prepare n) }

/-- Whether the node is evaluated. -/
def evaluates : Bool :=
  !o.occasion.isReceived && o.before?.any (·.enabled)

/-- What the node asks for. -/
def commands : List Command :=
  if o.evaluates then o.prepared.commandsOf ctx o.node o.occasion.trigger else []

/-- What happens, without the stage. -/
def episode : Episode :=
  o.stage.episode ctx o.occasion (o.commands ctx)

/-- The stage just after. -/
def next : Stage H :=
  if o.evaluates then (o.prepared.evaluate ctx o.node o.occasion.trigger).1 else o.prepared

/-- The node after. -/
def after? : Option Node :=
  (o.next ctx).graph.nodes[o.node]?

/-- The outputs that have changed. -/
def changed : List PortRef :=
  if o.evaluates then (o.prepared.evaluate ctx o.node o.occasion.trigger).2
  else if o.occasion.isReceived then [⟨o.node, 0⟩]
  else []

end Occurrence

/-! ### Writing a transcript -/

namespace Stage

variable (ctx : LoadContext) (s : Stage H)

omit [Host H] in
/-- Following a link. -/
def deliveryTranscript (value : Value) (target : PortRef) : List (Occurrence H) :=
  match s.graph.nodes[target.node]? with
  | none => []
  | some n =>
    if (n.ports.inputAt target.port).same value then []
    else [⟨s, target.node, .input target.port value⟩]

/-- Following links until none is due or no step is left. -/
def transcript (ctx : LoadContext) : Nat → Frontier → Stage H → List (Occurrence H)
  | steps, f, s =>
    match f.next? s.graph with
    | none => []
    | some (value, target, f) =>
      match steps with
      | 0 => []
      | steps + 1 =>
        s.deliveryTranscript value target ++
          transcript ctx steps (f.enqueue (s.deliver ctx value target).2)
            (s.deliver ctx value target).1

/-- A whole pass that starts from changed ports. -/
def passTranscript (changed : List PortRef) : List (Occurrence H) :=
  s.transcript ctx ctx.settings.maxSteps (.ofSources changed)

end Stage

/-- Something happens, and the pass that it starts. -/
def Occurrence.transcript (ctx : LoadContext) (o : Occurrence H) : List (Occurrence H) :=
  o :: (o.next ctx).passTranscript ctx (o.changed ctx)

namespace Runner

variable (ctx : LoadContext)

/-- Priming one node. -/
def primingTranscript (state : Runner × World H) (i : Nat) : List (Occurrence H) :=
  match state.1.graph.nodes[i]? with
  | none => []
  | some n =>
    if n.enabled && n.behavior.inputBridge?.isNone then
      Occurrence.transcript ctx ⟨⟨state.1.graph, state.2⟩, i, .primed⟩
    else []

/-- An input bridge receives a value. -/
def receptionTranscript (r : Runner) (w : World H) (i : Nat) (value : Value) :
    List (Occurrence H) :=
  match r.graph.nodes[i]? with
  | none => []
  | some n =>
    match n.enabled, n.behavior.inputBridge? with
    | true, some bridge =>
      if (n.ports.outputAt 0).same (bridge.cast.apply value) then []
      else Occurrence.transcript ctx ⟨⟨r.graph, w⟩, i, .received value⟩
    | _, _ => []

/-- A fire reaches its node. -/
def fireTranscript (r : Runner) (w : World H) (fire : Fire) : List (Occurrence H) :=
  match r.graph.indexOf? fire.node with
  | none => []
  | some i =>
    match r.graph.nodes[i]? with
    | none => []
    | some n =>
      match n.timers.takeFired? fire.key fire.token, n.timers.fired? fire.key fire.token with
      | some _, some timer => Occurrence.transcript ctx ⟨⟨r.graph, w⟩, i, .fired timer⟩
      | _, _ => []

/-- What happens to the nodes of a graph in a task. -/
def transcript (r : Runner) (w : World H) : Task → List (Occurrence H)
  | .receive i value => r.receptionTranscript ctx w i value
  | .prime =>
    foldNotes (primeNode ctx) (primingTranscript ctx) (r, w) (List.range r.graph.nodes.size)
  | .fire fire => r.fireTranscript ctx w fire

end Runner

namespace Engine

/-- What happens to the nodes of running graphs, with the numbers of the graphs. -/
def jobTranscript (e : Engine H) (job : Job) : List (Nat × Occurrence H) :=
  match e.runners[job.runner]? with
  | none => []
  | some r => (r.transcript e.context e.world job.task).map fun o => (job.runner, o)

def jobsTranscript (e : Engine H) (jobs : List Job) : List (Nat × Occurrence H) :=
  foldNotes perform jobTranscript e jobs

/-- A signal is connected in a load. -/
def connectTranscript (e : Engine H) (entry : String × List Subscriber) :
    List (Nat × Occurrence H) :=
  (e.subscribed entry.1).jobsTranscript (arrivals entry.2 (e.initialValue? entry.1))

/-- What happens to the nodes of the new graphs during a load. -/
def installTranscript (e : Engine H) (c : Configuration) : List (Nat × Occurrence H) :=
  let graphs := (buildGraphs [] c.graphs).1
  foldNotes connect connectTranscript (e.assemble c) (subscriberTable graphs) ++
    ((subscriberTable graphs).foldl connect (e.assemble c)).jobsTranscript
      (primings graphs.length)

/-- What happens to the nodes of the running graphs in an action. -/
def actionTranscript (e : Engine H) : Action H → List (Nat × Occurrence H)
  | .install c => e.installTranscript c
  | .turn =>
    match e.world.queue with
    | [] => []
    | event :: rest => (e.withQueue rest).jobsTranscript ((e.withQueue rest).jobs event)
  | .stop | .post _ | .outside .. => []

/-- The transcript of a run. -/
def transcript (e : Engine H) (as : List (Action H)) : List (Nat × Occurrence H) :=
  foldNotes act actionTranscript e as

end Engine

/-! ### Transcripts without stages -/

namespace Occurrence

variable (ctx : LoadContext) {o : Occurrence H} {n : Node}

/-- The occurrence as a chronicle notes it down. -/
def note (o : Occurrence H) : Nat × Episode :=
  (o.node, o.episode ctx)

omit [Host H] in
theorem prepared_eq (hn : o.before? = some n) : o.prepared =
    { o.stage with graph := o.stage.graph.replace o.node (o.occasion.prepare n) } := by
  rw [prepared, hn]

omit [Host H] in
/-- A node is evaluated if it is enabled, unless it just shows what it receives. -/
theorem evaluates_eq (hn : o.before? = some n) :
    o.evaluates = (!o.occasion.isReceived && n.enabled) := by
  rw [evaluates, hn]
  rfl

omit [Host H] in
theorem world_prepared (o : Occurrence H) : o.prepared.world = o.stage.world := by
  unfold prepared
  split <;> rfl

omit [Host H] in
/-- A node that is evaluated. -/
theorem note_of_evaluates {s : Stage H} (h : o.evaluates = true) (hs : o.prepared = s) :
    o.note ctx =
      (o.node, s.episode ctx o.occasion (s.commandsOf ctx o.node o.occasion.trigger)) := by
  rw [note, episode, commands, if_pos h, ← hs, Stage.episode, Stage.episode, world_prepared]

omit [Host H] in
/-- A node that is not evaluated. -/
theorem note_of_not_evaluates (h : o.evaluates = false) :
    o.note ctx = (o.node, o.stage.episode ctx o.occasion []) := by
  rw [note, episode, commands, h]
  rfl

end Occurrence

namespace Stage

variable (ctx : LoadContext) (s : Stage H)

omit [Host H] in
/-- Without its stage, an occurrence of a delivery is the episode that the delivery notes. -/
theorem map_note_deliveryTranscript (value : Value) (target : PortRef) :
    (s.deliveryTranscript value target).map (Occurrence.note ctx) =
      s.delivery ctx value target := by
  unfold deliveryTranscript delivery
  cases hn : s.graph.nodes[target.node]? with
  | none => rfl
  | some n =>
    have ho : (⟨s, target.node, .input target.port value⟩ : Occurrence H).before? = some n := hn
    dsimp only
    split
    · rfl
    · rw [List.map_singleton]
      -- only a new value that reaches an enabled node is followed by an evaluation
      cases henabled : n.enabled with
      | true =>
        rw [Occurrence.note_of_evaluates ctx (by rw [Occurrence.evaluates_eq ho, henabled]; rfl)
          (Occurrence.prepared_eq ho)]
        rfl
      | false =>
        rw [Occurrence.note_of_not_evaluates ctx
          (by rw [Occurrence.evaluates_eq ho, henabled]; rfl)]
        rfl

theorem map_note_transcript (steps : Nat) (f : Frontier) :
    (s.transcript ctx steps f).map (Occurrence.note ctx) = s.course ctx steps f := by
  induction steps generalizing f s with
  | zero =>
    unfold transcript course
    cases f.next? s.graph <;> rfl
  | succ steps ih =>
    unfold transcript course
    cases f.next? s.graph with
    | none => rfl
    | some due =>
      dsimp only
      rw [List.map_append, map_note_deliveryTranscript, ih]

/-- Without a change nothing happens in a pass. -/
theorem transcript_of_nil (steps : Nat) : s.transcript ctx steps (.ofSources []) = [] := by
  unfold transcript
  rfl

end Stage

namespace Occurrence

variable (ctx : LoadContext) {o : Occurrence H}

/-- The notes of a node that is evaluated, and of the pass that follows. -/
theorem map_note_of_evaluates {s : Stage H} (h : o.evaluates = true) (hs : o.prepared = s) :
    (o.transcript ctx).map (note ctx) =
      s.evaluationCourse ctx o.node o.occasion o.occasion.trigger := by
  rw [transcript, List.map_cons, note_of_evaluates ctx h hs, Stage.passTranscript,
    Stage.map_note_transcript, next, changed, if_pos h, if_pos h, hs]
  rfl

/-- The notes of a node that is not evaluated, and of the pass that follows. -/
theorem map_note_of_not_evaluates {s : Stage H} (h : o.evaluates = false) (hs : o.prepared = s) :
    (o.transcript ctx).map (note ctx) = (o.node, o.stage.episode ctx o.occasion []) ::
      s.passCourse ctx (if o.occasion.isReceived then [⟨o.node, 0⟩] else []) := by
  rw [transcript, List.map_cons, note_of_not_evaluates ctx h, Stage.passTranscript,
    Stage.map_note_transcript, next, changed, h, hs]
  rfl

end Occurrence

namespace Runner

variable (ctx : LoadContext)

theorem map_note_primingTranscript (state : Runner × World H) (i : Nat) :
    (primingTranscript ctx state i).map (Occurrence.note ctx) = primingCourse ctx state i := by
  unfold primingTranscript primingCourse
  cases hn : state.1.graph.nodes[i]? with
  | none => rfl
  | some n =>
    have ho : (⟨⟨state.1.graph, state.2⟩, i, .primed⟩ : Occurrence H).before? = some n := hn
    dsimp only
    by_cases h : (n.enabled && n.behavior.inputBridge?.isNone) = true
    · rw [if_pos h, if_pos h]
      rw [Bool.and_eq_true] at h
      refine Occurrence.map_note_of_evaluates ctx ?_ ?_
      · rw [Occurrence.evaluates_eq ho, h.1]
        rfl
      · rw [Occurrence.prepared_eq ho]
        exact congrArg (fun g => (⟨g, state.2⟩ : Stage H)) (Graph.replace_self hn)
    · rw [if_neg h, if_neg h]
      rfl

theorem map_note_receptionTranscript (r : Runner) (w : World H) (i : Nat) (value : Value) :
    (r.receptionTranscript ctx w i value).map (Occurrence.note ctx) =
      r.receptionCourse ctx w i value := by
  unfold receptionTranscript receptionCourse
  cases hn : r.graph.nodes[i]? with
  | none => rfl
  | some n =>
    have ho : (⟨⟨r.graph, w⟩, i, .received value⟩ : Occurrence H).before? = some n := hn
    dsimp only
    cases henabled : n.enabled with
    | false => rfl
    | true =>
      cases hbridge : n.behavior.inputBridge? with
      | none => rfl
      | some bridge =>
        dsimp only
        split
        · rfl
        -- what comes before the pass is that the bridge shows the value
        · have hprepared := Occurrence.prepared_eq ho
          unfold Occasion.prepare at hprepared
          dsimp only at hprepared
          rw [hbridge] at hprepared
          rw [Occurrence.map_note_of_not_evaluates ctx (Occurrence.evaluates_eq ho) hprepared]
          rfl

theorem map_note_fireTranscript (r : Runner) (w : World H) (fire : Fire) :
    (r.fireTranscript ctx w fire).map (Occurrence.note ctx) = r.fireCourse ctx w fire := by
  unfold fireTranscript fireCourse
  cases r.graph.indexOf? fire.node with
  | none => rfl
  | some i =>
    dsimp only
    cases hn : r.graph.nodes[i]? with
    | none => rfl
    | some n =>
      dsimp only
      cases htimers : n.timers.takeFired? fire.key fire.token with
      | none => rfl
      | some timers =>
        obtain ⟨timer, htimer, hkey, htoken, -, -⟩ := ArmedTimers.exists_of_fired? htimers
        have ho : (⟨⟨r.graph, w⟩, i, .fired timer⟩ : Occurrence H).before? = some n := hn
        -- what comes before the evaluation is that the timer is taken away
        have hprepared : (⟨⟨r.graph, w⟩, i, .fired timer⟩ : Occurrence H).prepared =
            ⟨(r.release i n timers).graph, w⟩ := by
          rw [Occurrence.prepared_eq ho, Occasion.prepare, hkey, htoken, htimers]
          rfl
        rw [htimer]
        dsimp only
        cases henabled : n.enabled with
        | true =>
          rw [Occurrence.map_note_of_evaluates ctx
            (by rw [Occurrence.evaluates_eq ho, henabled]; rfl) hprepared]
          dsimp only [Occasion.trigger]
          rw [hkey]
          rfl
        | false =>
          rw [Occurrence.map_note_of_not_evaluates ctx
            (by rw [Occurrence.evaluates_eq ho, henabled]; rfl) hprepared]
          refine congrArg (_ :: ·) ?_
          -- a disabled node changes no output, so no link is followed
          rw [Stage.passCourse, ← Stage.map_note_transcript]
          exact congrArg (List.map _) (Stage.transcript_of_nil ctx _ _)

/-- Without the stages, the transcript of a task is its course. -/
theorem map_note_transcript (r : Runner) (w : World H) (task : Task) :
    (r.transcript ctx w task).map (Occurrence.note ctx) = r.course ctx w task := by
  cases task with
  | receive i value => exact r.map_note_receptionTranscript ctx w i value
  | fire fire => exact r.map_note_fireTranscript ctx w fire
  | prime =>
    have hnotes : (fun state i => (primingTranscript ctx state i).map (Occurrence.note ctx)) =
        primingCourse (H := H) ctx :=
      funext fun state => funext (map_note_primingTranscript ctx state)
    rw [transcript, map_foldNotes, hnotes]
    rfl

end Runner

namespace Engine

section Induct

variable {R : Engine H → List (Nat × Occurrence H) → Engine H → Prop} (hrefl : ∀ e, R e [] e)
  (htrans : ∀ {e e' e'' os os'}, R e os e' → R e' os' e'' → R e (os ++ os') e'')
  (hperform : ∀ e (job : Job), R e (e.jobTranscript job) (e.perform job))

include hrefl htrans hperform

/-- What holds of each job, and of one after the other, holds of a load from the moment when the new
graphs are at hand. -/
theorem installTranscript_induct (hsubscribed : ∀ e signal, R e [] (e.subscribed signal))
    (e : Engine H) (c : Configuration) :
    R (e.assemble c) (e.installTranscript c) (e.install c).2 := by
  have hperformAll (e : Engine H) (jobs : List Job) :
      R e (e.jobsTranscript jobs) (jobs.foldl perform e) :=
    foldNotes_induct hrefl htrans (fun e job _ => hperform e job) e
  have hconnect (e : Engine H) (entry : String × List Subscriber) :
      R e (e.connectTranscript entry) (e.connect entry) := by
    rw [connect_eq_jobs]
    exact htrans (hsubscribed e entry.1) (hperformAll _ _)
  rw [install_eq, primeAll_eq_jobs]
  exact htrans (foldNotes_induct hrefl htrans (fun e entry _ => hconnect e entry) _)
    (hperformAll _ _)

/-- The same of a turn. -/
theorem turnTranscript_induct (hqueue : ∀ e queue, R e [] (e.withQueue queue)) (e : Engine H) :
    R e (e.actionTranscript .turn) (e.act .turn) := by
  unfold actionTranscript act turn?
  cases e.world.queue with
  | nil => exact hrefl e
  | cons event rest =>
    have hjobs : R (e.withQueue rest)
        ((e.withQueue rest).jobsTranscript ((e.withQueue rest).jobs event))
        (((e.withQueue rest).jobs event).foldl perform (e.withQueue rest)) :=
      foldNotes_induct hrefl htrans (fun e job _ => hperform e job) (e.withQueue rest)
    rw [← handle_eq] at hjobs
    exact htrans (hqueue e rest) hjobs

end Induct

/-- An occurrence in a running graph as a chronicle notes it down. -/
def entry (ctx : LoadContext) (x : Nat × Occurrence H) : Entry :=
  ⟨x.1, x.2.node, x.2.episode ctx⟩

/-- On the way from `e` to `e'` the context stays the same, and the transcript without the stages is
this chronicle. -/
structure Reads (e : Engine H) (os : List (Nat × Occurrence H)) (entries : List Entry)
    (e' : Engine H) : Prop where
  context_eq : e'.context = e.context
  map_eq : os.map (entry e.context) = entries

namespace Reads

omit [Host H] in
theorem nil {e e' : Engine H} (h : e'.context = e.context) : e.Reads [] [] e' :=
  ⟨h, rfl⟩

omit [Host H] in
theorem trans {e e' e'' : Engine H} {os os' : List (Nat × Occurrence H)}
    {entries entries' : List Entry} (h : e.Reads os entries e') (h' : e'.Reads os' entries' e'') :
    e.Reads (os ++ os') (entries ++ entries') e'' := by
  refine ⟨h'.context_eq.trans h.context_eq, ?_⟩
  rw [List.map_append, h.map_eq, ← h.context_eq, h'.map_eq]

omit [Host H] in
/-- What is done for the members of a list is read off one member after the other. -/
theorem foldNotes {α : Type} {f : Engine H → α → Engine H}
    {note : Engine H → α → List (Nat × Occurrence H)} {note' : Engine H → α → List Entry}
    {l : List α} (hstep : ∀ e, ∀ a ∈ l, Reads e (note e a) (note' e a) (f e a)) (e : Engine H) :
    e.Reads (SignalGraph.foldNotes f note e l) (SignalGraph.foldNotes f note' e l)
      (l.foldl f e) := by
  induction l generalizing e with
  | nil => exact nil rfl
  | cons a rest ih =>
    have hfirst := hstep e a List.mem_cons_self
    exact hfirst.trans (ih (fun e b hb => hstep e b (List.mem_cons_of_mem _ hb)) (f e a))

/-- A job is read as its course. -/
theorem perform (e : Engine H) (job : Job) :
    e.Reads (e.jobTranscript job) (e.jobCourse job) (e.perform job) := by
  unfold Engine.perform updateRunner jobTranscript jobCourse
  cases e.runners[job.runner]? with
  | none => exact nil rfl
  | some r =>
    refine ⟨rfl, ?_⟩
    dsimp only
    rw [← r.map_note_transcript e.context e.world job.task, List.map_map, List.map_map]
    rfl

theorem performAll (e : Engine H) (jobs : List Job) :
    e.Reads (e.jobsTranscript jobs) (e.jobsCourse jobs) (jobs.foldl Engine.perform e) :=
  foldNotes (fun e job _ => perform e job) e

theorem connect (e : Engine H) (entry : String × List Subscriber) :
    e.Reads (e.connectTranscript entry) (e.connectCourse entry) (e.connect entry) := by
  have hsubscribed : e.Reads [] [] (e.subscribed entry.1) := nil rfl
  rw [connect_eq_jobs]
  exact hsubscribed.trans (performAll _ _)

/-- A load is read as its course, from the moment when the new graphs are at hand. -/
theorem install (e : Engine H) (c : Configuration) :
    (e.assemble c).Reads (e.installTranscript c) (e.installCourse c) (e.install c).2 := by
  rw [install_eq, primeAll_eq_jobs]
  exact (foldNotes (fun e entry _ => connect e entry) _).trans (performAll _ _)

theorem act (e : Engine H) {a : Action H} (ha : ∀ c, a ≠ .install c) :
    e.Reads (e.actionTranscript a) (e.actionCourse a) (e.act a) := by
  cases a with
  | install c => exact (ha c rfl).elim
  | stop | post | outside => exact nil rfl
  | turn =>
    unfold actionTranscript actionCourse Engine.act turn?
    cases e.world.queue with
    | nil => exact nil rfl
    | cons event rest =>
      have hwaiting : e.Reads [] [] (e.withQueue rest) := nil rfl
      have hjobs := performAll (e.withQueue rest) ((e.withQueue rest).jobs event)
      rw [← handle_eq] at hjobs
      exact hwaiting.trans hjobs

theorem run (e : Engine H) {as : List (Action H)} (has : ∀ a ∈ as, ∀ c, a ≠ .install c) :
    e.Reads (e.transcript as) (e.chronicle as) (e.run as) :=
  foldNotes (fun e a ha => act e (has a ha)) e

end Reads

/-- Since a load, the transcript without the stages is the chronicle, and the context is that of the
load. -/
theorem reads_since_load (e : Engine H) (c : Configuration) {as : List (Action H)}
    (has : ∀ a ∈ as, ∀ c, a ≠ .install c) :
    (e.assemble c).Reads (e.transcript (.install c :: as)) (e.chronicle (.install c :: as))
      (e.run (.install c :: as)) :=
  (Reads.install e c).trans (Reads.run (e.install c).2 has)

end Engine

end SignalGraph
