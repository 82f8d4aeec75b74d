import SignalGraph.Proofs.Engine.Coupling
import SignalGraph.Proofs.Engine.Jobs
import SignalGraph.Proofs.Engine.Ledger
import SignalGraph.Proofs.Engine.Passage
import SignalGraph.Proofs.Node.History

/-!
# Chronicles

The chronicle of a run lists everything that happens to the nodes of the running graphs, in order.
It is written alongside the run, from a single delivery up to whole actions. It is complete: a node
of a running graph has become what it is by what the chronicle of the time since the load says about
it, and by nothing else (`Engine.lives_of_run`).
-/

namespace SignalGraph

/-! ### Notes along a fold -/

/-- What is noted down at each step of a fold. -/
def foldNotes {σ α β : Type} (f : σ → α → σ) (note : σ → α → List β) : σ → List α → List β
  | _, [] => []
  | s, a :: rest => note s a ++ foldNotes f note (f s a) rest

/-- The notes of a list are those of its first part and, from the state after it, those of the
rest. -/
theorem foldNotes_append {σ α β : Type} (f : σ → α → σ) (note : σ → α → List β) (s : σ)
    (l l' : List α) :
    foldNotes f note s (l ++ l') = foldNotes f note s l ++ foldNotes f note (l.foldl f s) l' := by
  induction l generalizing s with
  | nil => rfl
  | cons a rest ih =>
    rw [List.cons_append, foldNotes, foldNotes, ih, List.append_assoc, List.foldl_cons]

/-- What the notes of each step say of the states before and after it, the notes of the fold say. -/
theorem foldNotes_induct {σ α β : Type} {f : σ → α → σ} {note : σ → α → List β}
    {R : σ → List β → σ → Prop} (hrefl : ∀ s, R s [] s)
    (htrans : ∀ {s s' s'' xs ys}, R s xs s' → R s' ys s'' → R s (xs ++ ys) s'') {l : List α}
    (hstep : ∀ s, ∀ a ∈ l, R s (note s a) (f s a)) (s : σ) :
    R s (foldNotes f note s l) (l.foldl f s) := by
  induction l generalizing s with
  | nil => exact hrefl s
  | cons a rest ih =>
    have hfirst := hstep s a List.mem_cons_self
    exact htrans hfirst (ih (fun s b hb => hstep s b (List.mem_cons_of_mem _ hb)) (f s a))

/-! ### Writing a chronicle -/

namespace ArmedTimers

/-- The timer that a fire is about. -/
def fired? (timers : ArmedTimers) (key : TimerKey) (token : Nat) : Option ArmedTimer :=
  List.find? (fun t => t.key == key && t.token == token) timers

/-- A fire that is accepted means one of the timers, which is taken away. -/
theorem exists_of_fired? {timers rest : ArmedTimers} {key : TimerKey} {token : Nat}
    (h : timers.takeFired? key token = some rest) : ∃ timer, timers.fired? key token = some timer ∧
      timer.key = key ∧ timer.token = token ∧ timers.Perm (timer :: rest) ∧
        rest.Sublist timers := by
  have hrest := takeFired?_eq_some h
  unfold takeFired? at h
  rw [Option.ite_none_right_eq_some] at h
  obtain ⟨timer, htimer⟩ := Option.isSome_iff_exists.1
    (List.find?_isSome.2 (List.any_eq_true.1 h.1))
  have hfired := List.find?_some htimer
  rw [Bool.and_eq_true, beq_iff_eq, beq_iff_eq] at hfired
  refine ⟨timer, htimer, hfired.1, hfired.2, ?_, ?_⟩
  · rw [hrest]
    exact perm_cons_eraseP htimer
  · rw [hrest]
    exact List.eraseP_sublist

end ArmedTimers

variable {H : Type} [Host H]

namespace Stage

variable (ctx : LoadContext) (s : Stage H)

/-- The commands that node `i` gives when it is evaluated. -/
def commandsOf (i : Nat) (trigger : Trigger) : List Command :=
  match s.graph.nodes[i]? with
  | none => []
  | some n =>
    match n.behavior.react (n.view trigger (s.world.reading ctx.settings)) with
    | .error _ => []
    | .ok r => r.commands

/-- What happens on this stage at this time. -/
def episode (occasion : Occasion) (commands : List Command) : Episode :=
  ⟨s.world.timeline.elapsed, s.world.reading ctx.settings, occasion, commands⟩

/-- Following a link: another value is stored, and an enabled node is evaluated on it. -/
def delivery (value : Value) (target : PortRef) : List (Nat × Episode) :=
  match s.graph.nodes[target.node]? with
  | none => []
  | some n =>
    if (n.ports.inputAt target.port).same value then []
    else
      let stored : Stage H :=
        { s with graph := s.graph.replace target.node (n.receive target.port value) }
      let commands := if n.enabled then stored.commandsOf ctx target.node .inputs else []
      [(target.node, s.episode ctx (.input target.port value) commands)]

/-- Following links until none is due or no step is left. -/
def course (ctx : LoadContext) : Nat → Frontier → Stage H → List (Nat × Episode)
  | steps, f, s =>
    match f.next? s.graph with
    | none => []
    | some (value, target, f) =>
      match steps with
      | 0 => []
      | steps + 1 =>
        s.delivery ctx value target ++
          course ctx steps (f.enqueue (s.deliver ctx value target).2) (s.deliver ctx value target).1

/-- A whole pass that starts from changed ports. -/
def passCourse (changed : List PortRef) : List (Nat × Episode) :=
  s.course ctx ctx.settings.maxSteps (.ofSources changed)

/-- An evaluation of node `i`, and the pass that it starts. -/
def evaluationCourse (i : Nat) (occasion : Occasion) (trigger : Trigger) : List (Nat × Episode) :=
  (i, s.episode ctx occasion (s.commandsOf ctx i trigger)) ::
    (s.evaluate ctx i trigger).1.passCourse ctx (s.evaluate ctx i trigger).2

end Stage

namespace Runner

variable (ctx : LoadContext)

/-- Priming one node. -/
def primingCourse (state : Runner × World H) (i : Nat) : List (Nat × Episode) :=
  match state.1.graph.nodes[i]? with
  | none => []
  | some n =>
    if n.enabled && n.behavior.inputBridge?.isNone then
      (⟨state.1.graph, state.2⟩ : Stage H).evaluationCourse ctx i .primed .inputs
    else []

/-- An input bridge receives a value. -/
def receptionCourse (r : Runner) (w : World H) (i : Nat) (value : Value) : List (Nat × Episode) :=
  match r.graph.nodes[i]? with
  | none => []
  | some n =>
    match n.enabled, n.behavior.inputBridge? with
    | true, some bridge =>
      if (n.ports.outputAt 0).same (bridge.cast.apply value) then []
      else
        let shown := r.graph.replace i (n.showing (bridge.cast.apply value))
        (i, (⟨r.graph, w⟩ : Stage H).episode ctx (.received value) []) ::
          (⟨shown, w⟩ : Stage H).passCourse ctx [⟨i, 0⟩]
    | _, _ => []

/-- A fire reaches its node. -/
def fireCourse (r : Runner) (w : World H) (fire : Fire) : List (Nat × Episode) :=
  match r.graph.indexOf? fire.node with
  | none => []
  | some i =>
    match r.graph.nodes[i]? with
    | none => []
    | some n =>
      match n.timers.takeFired? fire.key fire.token, n.timers.fired? fire.key fire.token with
      | some timers, some timer =>
        let released : Stage H := ⟨(r.release i n timers).graph, w⟩
        if n.enabled then released.evaluationCourse ctx i (.fired timer) (.timer fire.key)
        else [(i, released.episode ctx (.fired timer) [])]
      | _, _ => []

/-- What happens to the nodes of a graph in a task. -/
def course (r : Runner) (w : World H) : Task → List (Nat × Episode)
  | .receive i value => r.receptionCourse ctx w i value
  | .prime =>
    foldNotes (primeNode ctx) (primingCourse ctx) (r, w) (List.range r.graph.nodes.size)
  | .fire fire => r.fireCourse ctx w fire

end Runner

/-- An episode of a node of a running graph, both given by their numbers. -/
structure Entry where
  runner : Nat
  node : Nat
  episode : Episode

/-- What has happened to a node. -/
def history (i j : Nat) (entries : List Entry) : List Episode :=
  entries.filterMap fun entry =>
    if entry.runner = i ∧ entry.node = j then some entry.episode else none

namespace Engine

def jobCourse (e : Engine H) (job : Job) : List Entry :=
  match e.runners[job.runner]? with
  | none => []
  | some r => (r.course e.context e.world job.task).map fun note => ⟨job.runner, note.1, note.2⟩

def jobsCourse (e : Engine H) (jobs : List Job) : List Entry :=
  foldNotes perform jobCourse e jobs

/-- A signal is connected in a load. -/
def connectCourse (e : Engine H) (entry : String × List Subscriber) : List Entry :=
  (e.subscribed entry.1).jobsCourse (arrivals entry.2 (e.initialValue? entry.1))

/-- What happens to the nodes of the new graphs during a load. -/
def installCourse (e : Engine H) (c : Configuration) : List Entry :=
  let graphs := (buildGraphs [] c.graphs).1
  foldNotes connect connectCourse (e.assemble c) (subscriberTable graphs) ++
    ((subscriberTable graphs).foldl connect (e.assemble c)).jobsCourse (primings graphs.length)

/-- What happens to the nodes of the running graphs in an action. -/
def actionCourse (e : Engine H) : Action H → List Entry
  | .install c => e.installCourse c
  | .turn =>
    match e.world.queue with
    | [] => []
    | event :: rest => (e.withQueue rest).jobsCourse ((e.withQueue rest).jobs event)
  | .stop | .post _ | .outside .. => []

/-- The chronicle of a run. -/
def chronicle (e : Engine H) (as : List (Action H)) : List Entry :=
  foldNotes act actionCourse e as

end Engine

/-! ### Commands -/

namespace World

omit [Host H] in
/-- Time stands still while timers are scheduled and cancelled, and while the host is called. -/
theorem ledger_sameTimes (w₀ : World H) : Ledger fun w (_ : List Arming) => w.SameTimes w₀ where
  perm _ h := h
  quiet hw h := hw.sameTimes.trans h
  cancel _ timer h := by
    unfold cancelTimer
    split
    · refine SameTimes.trans (sameTimes_withTimeline ?_) h
      exact ⟨rfl, rfl, rfl⟩
    · exact h
  schedule {w _} fire delay _ h := by
    have hcounted : ({ w with nextToken := w.nextToken + 1 } : World H).SameTimes w₀ :=
      ⟨h.clock, h.timeline⟩
    unfold schedule
    split
    · exact hcounted
    · refine SameTimes.trans (sameTimes_withTimeline ?_) hcounted
      exact ⟨rfl, rfl, rfl⟩

omit [Host H] in
/-- A ticket is due so many milliseconds from now. -/
theorem due_of_schedule {w : World H} {delay : Nat} {fire : Fire} {ticket : Ticket}
    (h : (w.schedule delay fire).1 = some ticket) : ticket.due = w.timeline.elapsed + delay := by
  unfold schedule at h
  split at h
  · cases h
  · cases h
    rfl

variable (w : World H) (timers : ArmedTimers)

omit [Host H] in
/-- Arming replaces the timer under the key by one that is due after the delay. -/
theorem exists_of_arm (generation : Nat) (graph node : String) (key : TimerKey) (delay : Nat) :
    ∃ timer : ArmedTimer, timer.key = key ∧ timer.DueAt (w.timeline.elapsed + delay) ∧
      (w.arm generation graph node timers key delay).1 = timers.remove key ++ [timer] := by
  have hdisarmed : (w.disarm timers key).2.SameTimes w :=
    @Ledger.disarm _ _ generation graph node timers w [] (ledger_sameTimes w) key (.refl w)
  unfold arm
  rw [← disarm_fst w timers key]
  refine ⟨_, rfl, fun ticket hticket => ?_, rfl⟩
  rw [due_of_schedule hticket]
  exact congrArg (· + delay) hdisarmed.timeline.elapsed_eq

theorem sameTimes_carryOut (ctx : LoadContext) (graph node : String) (command : Command) :
    (carryOut ctx graph node (timers, w) command).2.SameTimes w :=
  @Ledger.carryOut _ _ graph node timers w [] _ (ledger_sameTimes w) ctx command (.refl w)

/-- What a command does to the timers is what it says. -/
theorem obeys_carryOut (ctx : LoadContext) (graph node : String) (command : Command) :
    timers.Obeys w.timeline.elapsed command (carryOut ctx graph node (timers, w) command).1 := by
  cases command with
  | arm key delay =>
    obtain ⟨timer, hkey, hdue, heq⟩ := exists_of_arm w timers ctx.generation graph node key delay
    show ArmedTimers.Obeys _ _ _ (w.arm ctx.generation graph node timers key delay).1
    rw [heq]
    exact .arm timer hkey hdue
  | cancel key =>
    show ArmedTimers.Obeys _ _ _ (w.disarm timers key).1
    rw [disarm_fst]
    exact .cancel
  | write signal value ack => exact .write
  | trigger scene fallback payload ack pulse =>
    have houtcome := w.trigger_outcome timers ctx graph node scene fallback payload ack pulse
    generalize carryOut ctx graph node (timers, w) _ = o at houtcome ⊢
    cases houtcome with
    | unresolved | written => exact .trigger
    | @armed signal w' htarget =>
      obtain ⟨timer, hkey, hdue, harmed⟩ := exists_of_arm (w'.write signal payload ack) timers
        ctx.generation graph node (.pulse signal) pulse
      rw [harmed]
      -- neither the question for the scene nor the write moves the clock
      rw [(Quiet.write_of_sceneTarget htarget signal payload ack).timeline_eq] at hdue
      exact .pulse timer hkey hdue

/-- The same for the commands of a reaction, one after the other. -/
theorem obeysAll_commands (ctx : LoadContext) (graph node : String) (commands : List Command) :
    ArmedTimers.ObeysAll w.timeline.elapsed commands timers
      (commands.foldl (carryOut ctx graph node) (timers, w)).1 := by
  induction commands generalizing timers w with
  | nil => exact .nil
  | cons command rest ih =>
    have hrest := ih (carryOut ctx graph node (timers, w) command).2
      (carryOut ctx graph node (timers, w) command).1
    rw [(sameTimes_carryOut w timers ctx graph node command).timeline.elapsed_eq] at hrest
    exact .cons (obeys_carryOut w timers ctx graph node command) hrest

end World

/-! ### Graphs -/

/-- What has happened to node `i` of a graph. -/
def episodesOf (i : Nat) (notes : List (Nat × Episode)) : List Episode :=
  notes.filterMap fun note => if note.1 = i then some note.2 else none

namespace Graph

/-- The nodes of `g` have become those of `g'` by what these notes say. -/
structure Lives (g : Graph) (notes : List (Nat × Episode)) (g' : Graph) : Prop where
  size_eq : g'.nodes.size = g.nodes.size
  exists_node : ∀ {i : Nat} {n : Node}, g.nodes[i]? = some n →
    ∃ n', g'.nodes[i]? = some n' ∧ n.Lives (episodesOf i notes) n'

theorem replace_self {g : Graph} {i : Nat} {n : Node} (hn : g.nodes[i]? = some n) :
    g.replace i n = g := by
  obtain ⟨hi, rfl⟩ := Array.getElem?_eq_some_iff.1 hn
  simp [replace, Array.setIfInBounds, hi]

namespace Lives

variable {g g' g'' : Graph} {notes notes' : List (Nat × Episode)}

theorem refl (g : Graph) : g.Lives [] g :=
  ⟨rfl, fun hn => ⟨_, hn, .nil⟩⟩

theorem trans (h : g.Lives notes g') (h' : g'.Lives notes' g'') :
    g.Lives (notes ++ notes') g'' where
  size_eq := h'.size_eq.trans h.size_eq
  exists_node := by
    intro i n hn
    obtain ⟨n', hn', hlives⟩ := h.exists_node hn
    obtain ⟨n'', hn'', hlives'⟩ := h'.exists_node hn'
    refine ⟨n'', hn'', ?_⟩
    rw [episodesOf, List.filterMap_append]
    exact hlives.trans hlives'

/-- A single note tells what happens to one node. -/
theorem replace {i : Nat} {n n' : Node} {ep : Episode} (hn : g.nodes[i]? = some n)
    (h : n.Undergoes ep n') : g.Lives [(i, ep)] (g.replace i n') where
  size_eq := size_replace
  exists_node := by
    intro j m hm
    by_cases hij : i = j
    · subst hij
      obtain rfl : n = m := Option.some.inj (hn.symm.trans hm)
      have hnotes : episodesOf i [(i, ep)] = [ep] := by simp [episodesOf]
      exact ⟨n', getElem?_replace_self hn, hnotes ▸ .single h⟩
    · have hnotes : episodesOf j [(i, ep)] = [] := by simp [episodesOf, hij]
      exact ⟨m, (getElem?_replace_ne hij).trans hm, hnotes ▸ .nil⟩

/-- Every node of the later graph comes from a node of the earlier one. -/
theorem exists_origin (h : g.Lives notes g') {i : Nat} {n' : Node} (hn' : g'.nodes[i]? = some n') :
    ∃ n, g.nodes[i]? = some n ∧ n.Lives (episodesOf i notes) n' := by
  have hi : i < g.nodes.size := h.size_eq ▸ lt_size_of_getElem? hn'
  obtain ⟨m, hm, hlives⟩ := h.exists_node (Array.getElem?_eq_getElem hi)
  obtain rfl : m = n' := Option.some.inj (hm.symm.trans hn')
  exact ⟨_, Array.getElem?_eq_getElem hi, hlives⟩

end Lives

end Graph

/-! ### Evaluations and passes -/

namespace Stage

variable {ctx : LoadContext} {s : Stage H} {i : Nat} {n : Node} {trigger : Trigger}

/-- An evaluation replaces the node by what it makes of it. -/
theorem exists_evaluates (ctx : LoadContext) (trigger : Trigger) (hn : s.graph.nodes[i]? = some n) :
    ∃ n',
    n.Evaluates trigger s.world.timeline.elapsed (s.world.reading ctx.settings)
        (s.commandsOf ctx i trigger) n' ∧
      (s.evaluate ctx i trigger).1.graph = s.graph.replace i n' := by
  rw [commandsOf, hn, evaluate_eq ctx s i trigger hn]
  dsimp only
  cases hreact : n.behavior.react (n.view trigger (s.world.reading ctx.settings)) with
  | error e => exact ⟨n, .failed hreact, (Graph.replace_self hn).symm⟩
  | ok r => exact ⟨_, .reacted hreact (World.obeysAll_commands _ _ ctx s.graph.id n.id _), rfl⟩

/-- A delivery stores a value at a node and evaluates it, or it does nothing. -/
theorem lives_deliver (s : Stage H) (value : Value) (target : PortRef) :
    s.graph.Lives (s.delivery ctx value target) (s.deliver ctx value target).1.graph := by
  cases hn : s.graph.nodes[target.node]? with
  | none =>
    rw [delivery, deliver, hn]
    exact .refl _
  | some n =>
    rw [delivery, hn, deliver_eq hn]
    dsimp only
    split
    · exact .refl _
    -- a value that is the same as before is not delivered
    · next hdiffers =>
      rw [Bool.not_eq_true] at hdiffers
      split
      · next henabled =>
        obtain ⟨n', hevaluates, hgraph⟩ := exists_evaluates ctx .inputs
          (s := { s with graph := s.graph.replace target.node (n.receive target.port value) })
          (Graph.getElem?_replace_self hn)
        rw [hgraph, Graph.replace_replace]
        exact .replace hn (.delivered henabled hdiffers hevaluates)
      · next hdisabled => exact .replace hn (.stored (by simpa using hdisabled) hdiffers)

/-- A pass makes one delivery after the other. -/
theorem lives_propagate (steps : Nat) (f : Frontier) (s : Stage H) :
    s.graph.Lives (s.course ctx steps f) (s.propagate ctx steps f).stage.graph := by
  induction steps generalizing f s with
  | zero =>
    unfold course propagate
    cases f.next? s.graph <;> exact .refl _
  | succ steps ih =>
    unfold course propagate
    cases f.next? s.graph with
    | none => exact .refl _
    | some due =>
      obtain ⟨value, target, f'⟩ := due
      exact (lives_deliver s value target).trans (ih _ _)

theorem lives_pass (ctx : LoadContext) (r : Runner) (s : Stage H) (changed : List PortRef) :
    s.graph.Lives (s.passCourse ctx changed) (r.pass ctx s changed).1.graph :=
  lives_propagate _ _ s

/-- The node `n` of a graph is replaced by `m`, which is evaluated, and a pass follows. -/
theorem lives_evaluation {g : Graph} {m : Node} {occasion : Occasion} (r : Runner)
    (hn : g.nodes[i]? = some n) (hs : s.graph = g.replace i m)
    (hundergoes : ∀ n', m.Evaluates trigger s.world.timeline.elapsed (s.world.reading ctx.settings)
      (s.commandsOf ctx i trigger) n' →
        n.Undergoes (s.episode ctx occasion (s.commandsOf ctx i trigger)) n') :
    g.Lives (s.evaluationCourse ctx i occasion trigger)
      (r.pass ctx (s.evaluate ctx i trigger).1 (s.evaluate ctx i trigger).2).1.graph := by
  have hm : s.graph.nodes[i]? = some m := by
    rw [hs]
    exact Graph.getElem?_replace_self hn
  obtain ⟨n', hevaluates, hgraph⟩ := exists_evaluates ctx trigger hm
  have hfirst := Graph.Lives.replace hn (hundergoes n' hevaluates)
  rw [hs, Graph.replace_replace] at hgraph
  rw [← hgraph] at hfirst
  exact hfirst.trans (lives_pass ctx r _ _)

end Stage

namespace Runner

variable {ctx : LoadContext}

/-- An enabled node is primed by an evaluation, unless one has come before it. -/
theorem lives_primeNode (state : Runner × World H) (i : Nat) :
    state.1.graph.Lives (primingCourse ctx state i) (primeNode ctx state i).1.graph := by
  obtain ⟨r, w⟩ := state
  unfold primingCourse primeNode
  dsimp only
  cases hn : r.graph.nodes[i]? with
  | none => exact .refl _
  | some n =>
    dsimp only
    by_cases h : (n.enabled && n.behavior.inputBridge?.isNone) = true
    · rw [if_pos h, if_pos h]
      rw [Bool.and_eq_true, Option.isNone_iff_eq_none] at h
      have hself : (⟨r.graph, w⟩ : Stage H).graph = r.graph.replace i n :=
        (Graph.replace_self hn).symm
      exact Stage.lives_evaluation r hn hself fun n' => .primed h.1 h.2
    · rw [if_neg h, if_neg h]
      exact .refl _

/-- An injection shows a new value at an input bridge and makes a pass. -/
theorem lives_inject (r : Runner) (w : World H) (i : Nat) (value : Value) :
    r.graph.Lives (r.receptionCourse ctx w i value) (r.inject ctx w i value).1.graph := by
  cases hn : r.graph.nodes[i]? with
  | none =>
    rw [receptionCourse, inject, hn]
    exact .refl _
  | some n =>
    rw [receptionCourse, hn, inject_eq hn]
    dsimp only
    cases henabled : n.enabled with
    | false => exact .refl _
    | true =>
      cases hbridge : n.behavior.inputBridge? with
      | none => exact .refl _
      | some bridge =>
        dsimp only
        -- a bridge that shows the value already sets nothing going
        by_cases hsame : (n.ports.outputAt 0).same (bridge.cast.apply value) = true
        · rw [if_pos hsame, if_pos hsame]
          exact .refl _
        · rw [if_neg hsame, if_neg hsame]
          have hpass := Stage.lives_pass ctx r
            ⟨r.graph.replace i (n.showing (bridge.cast.apply value)), w⟩ [⟨i, 0⟩]
          exact (Graph.Lives.replace hn (.received henabled hbridge)).trans hpass

/-- A fire takes the timer away that it means and evaluates the node, if it is enabled. -/
theorem lives_onTimer (r : Runner) (w : World H) (fire : Fire) :
    r.graph.Lives (r.fireCourse ctx w fire) (r.onTimer ctx w fire).1.graph := by
  unfold fireCourse onTimer
  cases r.graph.indexOf? fire.node with
  | none => exact .refl _
  | some i =>
    dsimp only
    cases hn : r.graph.nodes[i]? with
    | none => exact .refl _
    | some n =>
      dsimp only
      cases htimers : n.timers.takeFired? fire.key fire.token with
      | none => exact .refl _
      | some timers =>
        -- the fire means a timer of the node, which it loses in any case
        obtain ⟨timer, htimer, hkey, -, hperm, hsub⟩ := ArmedTimers.exists_of_fired? htimers
        rw [htimer]
        dsimp only
        by_cases henabled : n.enabled = true
        · rw [if_pos henabled, if_pos henabled]
          have hreleased : (⟨(r.release i n timers).graph, w⟩ : Stage H).graph =
              r.graph.replace i { n with timers := timers } := rfl
          refine Stage.lives_evaluation (r.release i n timers) hn hreleased fun n' h => ?_
          exact .fired henabled hsub hperm (by rwa [hkey])
        · rw [if_neg henabled, if_neg henabled]
          exact .replace hn (.dropped (by simpa using henabled) hsub hperm)

/-- What priming these nodes does to the nodes of a graph is written down. -/
theorem lives_primeAll (r : Runner) (w : World H) (l : List Nat) :
    r.graph.Lives (foldNotes (primeNode ctx) (primingCourse ctx) (r, w) l)
      (l.foldl (primeNode ctx) (r, w)).1.graph :=
  foldNotes_induct
    (R := fun (state : Runner × World H) notes state' => state.1.graph.Lives notes state'.1.graph)
    (fun _ => .refl _) (fun h h' => h.trans h') (fun state i _ => lives_primeNode state i) (r, w)

/-- What a task does to the nodes of a graph is written down. -/
theorem lives_perform (r : Runner) (w : World H) (task : Task) :
    r.graph.Lives (r.course ctx w task) (r.perform ctx w task).1.graph := by
  cases task with
  | receive i value => exact lives_inject r w i value
  | prime => exact lives_primeAll r w (List.range r.graph.nodes.size)
  | fire fire => exact lives_onTimer r w fire

end Runner

/-! ### Runs -/

namespace Engine

/-- The notes about the nodes of one running graph. -/
def notesOf (i : Nat) (entries : List Entry) : List (Nat × Episode) :=
  entries.filterMap fun entry => if entry.runner = i then some (entry.node, entry.episode) else none

omit [Host H] in
/-- The episodes of a node are its history. -/
theorem episodesOf_notesOf (i j : Nat) (entries : List Entry) :
    episodesOf j (notesOf i entries) = history i j entries := by
  rw [episodesOf, notesOf, List.filterMap_filterMap, history]
  congr 1
  ext entry : 1
  by_cases hi : entry.runner = i <;> by_cases hj : entry.node = j <;> simp [hi, hj]

omit [Host H] in
/-- What has happened to one node is part of all that has happened. -/
theorem history_sublist (i j : Nat) (entries : List Entry) :
    (history i j entries).Sublist (entries.map Entry.episode) := by
  induction entries with
  | nil => exact .slnil
  | cons entry rest ih =>
    unfold history at ih ⊢
    rw [List.filterMap_cons, List.map_cons]
    by_cases hentry : entry.runner = i ∧ entry.node = j
    · rw [if_pos hentry]
      exact ih.cons_cons _
    · rw [if_neg hentry]
      exact ih.cons _

/-- A load connects signals and then primes the graphs. What holds of the jobs of both, and of one
after the other, holds of the load from the moment when the new graphs are at hand. -/
theorem install_induct {R : Engine H → List Entry → Engine H → Prop} (hrefl : ∀ e, R e [] e)
    (htrans : ∀ {e e' e'' xs ys}, R e xs e' → R e' ys e'' → R e (xs ++ ys) e'')
    (hsubscribed : ∀ e signal, R e [] (e.subscribed signal))
    (hperform : ∀ e (job : Job), (∀ fire, job.task ≠ .fire fire) →
      R e (e.jobCourse job) (e.perform job)) (e : Engine H) (c : Configuration) :
    R (e.assemble c) (e.installCourse c) (e.install c).2 := by
  have hperformAll {jobs : List Job} (hjobs : ∀ job ∈ jobs, ∀ fire, job.task ≠ .fire fire)
      (e : Engine H) : R e (e.jobsCourse jobs) (jobs.foldl perform e) :=
    foldNotes_induct hrefl htrans (fun e job hjob => hperform e job (hjobs job hjob)) e
  have hconnect (e : Engine H) (entry : String × List Subscriber) :
      R e (e.connectCourse entry) (e.connect entry) := by
    rw [connect_eq_jobs]
    exact htrans (hsubscribed e entry.1) (hperformAll (fun _ => task_ne_of_mem_arrivals) _)
  -- the signals are connected first, and then the graphs are primed
  rw [install_eq, primeAll_eq_jobs]
  refine htrans (foldNotes_induct hrefl htrans (fun e entry _ => hconnect e entry) _) ?_
  exact hperformAll (fun _ => task_ne_of_mem_primings) _

/-- The running graphs of `e'` are running graphs of `e`, and their nodes have become what they are
by what these entries say. -/
def Lives (e : Engine H) (entries : List Entry) (e' : Engine H) : Prop :=
  ∀ (i : Nat) (r' : Runner), e'.runners[i]? = some r' →
    ∃ r, e.runners[i]? = some r ∧ r.graph.Lives (notesOf i entries) r'.graph

namespace Lives

variable {e e' e'' : Engine H} {entries entries' : List Entry}

omit [Host H] in
theorem of_runners_eq (h : e'.runners = e.runners) : e.Lives [] e' :=
  fun _ r' hr' => ⟨r', h ▸ hr', .refl _⟩

omit [Host H] in
theorem trans (h : e.Lives entries e') (h' : e'.Lives entries' e'') :
    e.Lives (entries ++ entries') e'' := by
  intro i r'' hr''
  obtain ⟨r', hr', hlives'⟩ := h' i r'' hr''
  obtain ⟨r, hr, hlives⟩ := h i r' hr'
  refine ⟨r, hr, ?_⟩
  rw [notesOf, List.filterMap_append]
  exact hlives.trans hlives'

/-- A job is noted for its own runner alone. -/
theorem perform (e : Engine H) (job : Job) : e.Lives (e.jobCourse job) (e.perform job) := by
  unfold jobCourse Engine.perform updateRunner
  cases hr : e.runners[job.runner]? with
  | none => exact of_runners_eq rfl
  | some r =>
    intro i r' hr'
    dsimp only at hr'
    -- the notes of the job are those of its runner, and no other runner has any
    by_cases hi : job.runner = i
    · subst hi
      rw [getElem?_setIfInBounds_of_some hr] at hr'
      cases hr'
      refine ⟨r, hr, ?_⟩
      have hnotes : notesOf job.runner ((r.course e.context e.world job.task).map
          fun note => ⟨job.runner, note.1, note.2⟩) = r.course e.context e.world job.task := by
        rw [notesOf, List.filterMap_map]
        refine (List.filterMap_congr fun note _ => ?_).trans List.filterMap_some
        exact if_pos rfl
      rw [hnotes]
      exact r.lives_perform e.world job.task
    · rw [Array.getElem?_setIfInBounds_ne hi] at hr'
      refine ⟨r', hr', ?_⟩
      have hnotes : notesOf i ((r.course e.context e.world job.task).map
          fun note => ⟨job.runner, note.1, note.2⟩) = [] := by
        rw [notesOf, List.filterMap_map, List.filterMap_eq_nil_iff]
        exact fun note _ => if_neg hi
      rw [hnotes]
      exact .refl _

theorem performAll (e : Engine H) (jobs : List Job) :
    e.Lives (e.jobsCourse jobs) (jobs.foldl Engine.perform e) :=
  foldNotes_induct (fun _ => of_runners_eq rfl) (fun h h' => h.trans h')
    (fun e job _ => perform e job) e

/-- A load starts from the new graphs. -/
theorem install (e : Engine H) (c : Configuration) :
    (e.assemble c).Lives (e.installCourse c) (e.install c).2 :=
  install_induct (fun _ => of_runners_eq rfl) (fun h h' => h.trans h')
    (fun _ _ => of_runners_eq rfl) (fun e job _ => perform e job) e c

/-- An action leads from one state of the nodes to the next by the episodes that are noted
meanwhile. -/
theorem act (e : Engine H) {a : Action H} (ha : ∀ c, a ≠ .install c) :
    e.Lives (e.actionCourse a) (e.act a) := by
  cases a with
  | install c => exact (ha c rfl).elim
  | stop => exact fun _ _ hr => nomatch hr
  | post | outside => exact of_runners_eq rfl
  | turn =>
    unfold actionCourse Engine.act turn?
    cases e.world.queue with
    | nil => exact of_runners_eq rfl
    | cons event rest =>
      dsimp only [Option.getD_some]
      have hwaiting : e.Lives [] (e.withQueue rest) := of_runners_eq rfl
      have hjobs := performAll (e.withQueue rest) ((e.withQueue rest).jobs event)
      rw [← handle_eq] at hjobs
      exact hwaiting.trans hjobs

theorem run (e : Engine H) {as : List (Action H)} (has : ∀ a ∈ as, ∀ c, a ≠ .install c) :
    e.Lives (e.chronicle as) (e.run as) :=
  foldNotes_induct (fun _ => of_runners_eq rfl) (fun h h' => h.trans h')
    (fun e a ha => act e (has a ha)) e

end Lives

/-- Whatever a node of a running graph has become since the load, it has become by what the
chronicle says about it, and it was new then. -/
theorem lives_of_run (e : Engine H) (c : Configuration) {as : List (Action H)}
    (has : ∀ a ∈ as, ∀ c, a ≠ .install c) {i j : Nat} {r : Runner} {n : Node}
    (hr : (e.run (.install c :: as)).runners[i]? = some r) (hn : r.graph.nodes[j]? = some n) :
    ∃ g n₀, (buildGraphs [] c.graphs).1[i]? = some g ∧ g.nodes[j]? = some n₀ ∧ n₀.Fresh ∧
      n₀.Lives (history i j (e.chronicle (.install c :: as))) n := by
  have hlives := (Lives.install e c).trans (Lives.run (e.install c).2 has)
  obtain ⟨r₀, hr₀, hgraph⟩ := hlives i r hr
  rw [assemble, List.getElem?_toArray, List.getElem?_map] at hr₀
  obtain ⟨g, hg, rfl⟩ := Option.map_eq_some_iff.1 hr₀
  obtain ⟨n₀, hn₀, hnode⟩ := hgraph.exists_origin hn
  rw [episodesOf_notesOf] at hnode
  refine ⟨g, n₀, hg, hn₀, ?_, hnode⟩
  exact (fresh_of_mem_buildGraphs (List.mem_of_getElem? hg)).1.nodes j n₀ hn₀

end Engine

end SignalGraph
