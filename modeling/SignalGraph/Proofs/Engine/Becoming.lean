import SignalGraph.Proofs.Engine.Transcript

/-!
# What nodes become by a transcript

A transcript is complete, and each occurrence in it starts on the stage that the one before has left
(`Runner.leads_perform`). So in a load, and in every action after it, the nodes of the running
graphs become what they are by their occurrences, one after the other, and by nothing else
(`Engine.Becomes.install`, `Engine.Becomes.act`). Without the stages, these are the lives of the
nodes (`Node.Becomes.lives`).
-/

namespace SignalGraph

variable {H : Type} [Host H] {ctx : LoadContext}

/-! ### One occurrence -/

namespace Occurrence

variable {o : Occurrence H} {n : Node}

/-- An evaluation replaces the node by what it makes of it. -/
theorem exists_evaluates (ctx : LoadContext) (hn : o.before? = some n) (h : o.evaluates = true) :
    ∃ n', (o.occasion.prepare n).Evaluates o.occasion.trigger o.stage.world.timeline.elapsed
        (o.stage.world.reading ctx.settings) (o.commands ctx) n' ∧
      (o.next ctx).graph = o.stage.graph.replace o.node n' := by
  have hm : o.prepared.graph.nodes[o.node]? = some (o.occasion.prepare n) := by
    rw [prepared_eq hn]
    exact Graph.getElem?_replace_self hn
  obtain ⟨n', hevaluates, hgraph⟩ := Stage.exists_evaluates ctx o.occasion.trigger hm
  refine ⟨n', ?_, ?_⟩
  · rw [commands, if_pos h, ← world_prepared]
    exact hevaluates
  · rw [next, if_pos h, hgraph, prepared_eq hn, Graph.replace_replace]

/-- Without an evaluation there are no commands, and the node is left as the occasion prepares
it. -/
theorem of_not_evaluates (ctx : LoadContext) (hn : o.before? = some n) (h : o.evaluates = false) :
    o.commands ctx = [] ∧
      (o.next ctx).graph = o.stage.graph.replace o.node (o.occasion.prepare n) := by
  rw [commands, next, h, prepared_eq hn]
  exact ⟨rfl, rfl⟩

/-- What suits the node is an episode of it. -/
theorem exists_undergoes (ctx : LoadContext) (hn : o.before? = some n) (h : o.occasion.Suits n) :
    ∃ n', n.Undergoes (o.episode ctx) n' ∧
      (o.next ctx).graph = o.stage.graph.replace o.node n' := by
  obtain ⟨s, i, occasion⟩ := o
  have hevaluates := evaluates_eq hn
  cases h with
  | input hdiffers =>
    cases henabled : n.enabled with
    | true =>
      rw [henabled] at hevaluates
      obtain ⟨n', hn', hgraph⟩ := exists_evaluates ctx hn hevaluates
      exact ⟨n', .delivered henabled hdiffers hn', hgraph⟩
    | false =>
      rw [henabled] at hevaluates
      obtain ⟨hcommands, hgraph⟩ := of_not_evaluates ctx hn hevaluates
      rw [episode, hcommands]
      exact ⟨_, .stored henabled hdiffers, hgraph⟩
  | primed henabled hbridge =>
    rw [henabled] at hevaluates
    obtain ⟨n', hn', hgraph⟩ := exists_evaluates ctx hn hevaluates
    exact ⟨n', .primed henabled hbridge hn', hgraph⟩
  | @fired timer timers htimers hperm hsub =>
    have hprepare : (Occasion.fired timer).prepare n = { n with timers := timers } := by
      rw [Occasion.prepare, htimers, Option.getD_some]
    cases henabled : n.enabled with
    | true =>
      rw [henabled] at hevaluates
      obtain ⟨n', hn', hgraph⟩ := exists_evaluates ctx hn hevaluates
      exact ⟨n', .fired henabled hsub hperm (hprepare ▸ hn'), hgraph⟩
    | false =>
      rw [henabled] at hevaluates
      obtain ⟨hcommands, hgraph⟩ := of_not_evaluates ctx hn hevaluates
      rw [episode, hcommands]
      exact ⟨_, .dropped henabled hsub hperm, hprepare ▸ hgraph⟩
  -- a received value does not evaluate the bridge, it only shows what it casts to
  | @received bridge value henabled hbridge =>
    have hprepare : (Occasion.received value).prepare n = n.showing (bridge.cast.apply value) := by
      rw [Occasion.prepare, hbridge]
    obtain ⟨hcommands, hgraph⟩ := of_not_evaluates ctx hn hevaluates
    rw [episode, hcommands]
    exact ⟨_, .received henabled hbridge, hprepare ▸ hgraph⟩

end Occurrence

/-! ### Graphs -/

namespace Graph

/-- The graph `g` becomes `g'` by these occurrences, one after the other. -/
inductive Becomes (ctx : LoadContext) : Graph → List (Occurrence H) → Graph → Prop
  | nil (g : Graph) : Becomes ctx g [] g
  | cons {o : Occurrence H} {os : List (Occurrence H)} {g' : Graph} {n n' : Node}
    (hbefore : o.before? = some n) (hundergoes : n.Undergoes (o.episode ctx) n')
    (hnext : (o.next ctx).graph = o.stage.graph.replace o.node n')
    (hrest : Becomes ctx (o.next ctx).graph os g') : Becomes ctx o.stage.graph (o :: os) g'

namespace Becomes

variable {g g' g'' : Graph} {os os' : List (Occurrence H)} {o : Occurrence H} {n : Node}

theorem trans (h : g.Becomes ctx os g') (h' : g'.Becomes ctx os' g'') :
    g.Becomes ctx (os ++ os') g'' := by
  induction h with
  | nil => exact h'
  | cons hbefore hundergoes hnext _ ih => exact .cons hbefore hundergoes hnext (ih h')

theorem size_eq (h : g.Becomes ctx os g') : g'.nodes.size = g.nodes.size := by
  induction h with
  | nil => rfl
  | cons _ _ hnext _ ih => rw [ih, hnext, size_replace]

end Becomes

end Graph

/-! ### Stages -/

namespace Stage

/-- From `s` to `s'` this happens: each occurrence suits its node and starts on the stage that the
one before has left. -/
inductive Leads (ctx : LoadContext) : Stage H → List (Occurrence H) → Stage H → Prop
  | nil (s : Stage H) : Leads ctx s [] s
  | cons {o : Occurrence H} {os : List (Occurrence H)} {s' : Stage H} {n : Node}
    (hbefore : o.before? = some n) (hsuits : o.occasion.Suits n)
    (hrest : Leads ctx (o.next ctx) os s') : Leads ctx o.stage (o :: os) s'

namespace Leads

variable {s s' s'' : Stage H} {os os' : List (Occurrence H)} {o : Occurrence H} {n : Node}

theorem trans (h : s.Leads ctx os s') (h' : s'.Leads ctx os' s'') :
    s.Leads ctx (os ++ os') s'' := by
  induction h with
  | nil => exact h'
  | cons hbefore hsuits _ ih => exact .cons hbefore hsuits (ih h')

/-- One occurrence that suits its node leads to what it leaves. -/
theorem single (ctx : LoadContext) (hn : o.before? = some n) (h : o.occasion.Suits n) :
    o.stage.Leads ctx [o] (o.next ctx) :=
  .cons hn h (.nil _)

/-- The graph of the stage becomes another one by what happens. -/
theorem becomes (h : s.Leads ctx os s') : s.graph.Becomes ctx os s'.graph := by
  induction h with
  | nil => exact .nil _
  | @cons o _ _ _ hbefore hsuits _ ih =>
    obtain ⟨n', hundergoes, hnext⟩ := o.exists_undergoes ctx hbefore hsuits
    exact .cons hbefore hundergoes hnext ih

end Leads

variable (ctx) (s : Stage H)

/-- A delivery is at most one occurrence: a value that is the same as the one stored is none. -/
theorem leads_deliver (value : Value) (target : PortRef) :
    s.Leads ctx (s.deliveryTranscript value target) (s.deliver ctx value target).1 := by
  unfold deliveryTranscript
  cases hn : s.graph.nodes[target.node]? with
  | none =>
    rw [deliver, hn]
    exact .nil _
  | some n =>
    have ho : (⟨s, target.node, .input target.port value⟩ : Occurrence H).before? = some n := hn
    rw [deliver_eq hn]
    dsimp only
    by_cases hsame : (n.ports.inputAt target.port).same value = true
    · rw [if_pos hsame, if_pos hsame]
      exact .nil _
    · rw [if_neg hsame, if_neg hsame]
      -- `single` speaks of the occurrence; its node and its evaluation are those of the delivery
      have hsingle := Leads.single ctx ho (.input (Bool.eq_false_iff.2 hsame))
      rw [Occurrence.next, Occurrence.evaluates_eq ho, Occurrence.prepared_eq ho] at hsingle
      cases henabled : n.enabled with
      | true =>
        rw [henabled] at hsingle
        exact hsingle
      | false =>
        rw [henabled] at hsingle
        exact hsingle

/-- A propagation leads through the occurrences of its deliveries, by induction on its steps. -/
theorem leads_propagate (steps : Nat) (f : Frontier) :
    s.Leads ctx (s.transcript ctx steps f) (s.propagate ctx steps f).stage := by
  induction steps generalizing f s with
  | zero =>
    unfold transcript propagate
    cases f.next? s.graph <;> exact .nil _
  | succ steps ih =>
    unfold transcript propagate
    cases f.next? s.graph with
    | none => exact .nil _
    | some due =>
      obtain ⟨value, target, f'⟩ := due
      exact (leads_deliver ctx s value target).trans (ih _ _)

end Stage

namespace Runner

/-- From a graph and a world to others, this happens. -/
def Leads (ctx : LoadContext) (state : Runner × World H) (os : List (Occurrence H))
    (state' : Runner × World H) : Prop :=
  (⟨state.1.graph, state.2⟩ : Stage H).Leads ctx os ⟨state'.1.graph, state'.2⟩

/-- Something that suits its node happens, and a pass follows. -/
theorem leads_pass (ctx : LoadContext) {o : Occurrence H} {n : Node} {r : Runner} {w : World H}
    (r' : Runner) (ho : o.stage = ⟨r.graph, w⟩) (hn : o.before? = some n) (h : o.occasion.Suits n) :
    Leads ctx (r, w) (o.transcript ctx) (r'.pass ctx (o.next ctx) (o.changed ctx)) := by
  rw [Leads, ← ho]
  exact (Stage.Leads.single ctx hn h).trans (Stage.leads_propagate ctx _ _ _)

/-- Priming is one occurrence and the pass after it, or nothing. -/
theorem leads_primeNode (state : Runner × World H) (i : Nat) :
    Leads ctx state (primingTranscript ctx state i) (primeNode ctx state i) := by
  obtain ⟨r, w⟩ := state
  unfold primingTranscript primeNode
  dsimp only
  cases hn : r.graph.nodes[i]? with
  | none => exact .nil _
  | some n =>
    have ho : (⟨⟨r.graph, w⟩, i, .primed⟩ : Occurrence H).before? = some n := hn
    dsimp only
    by_cases h : (n.enabled && n.behavior.inputBridge?.isNone) = true
    · rw [if_pos h, if_pos h]
      rw [Bool.and_eq_true, Option.isNone_iff_eq_none] at h
      have hpass := leads_pass ctx r rfl ho (.primed h.1 h.2)
      have hprepared : (⟨⟨r.graph, w⟩, i, .primed⟩ : Occurrence H).prepared = ⟨r.graph, w⟩ := by
        rw [Occurrence.prepared_eq ho]
        exact congrArg (fun g => (⟨g, w⟩ : Stage H)) (Graph.replace_self hn)
      rw [Occurrence.next, Occurrence.changed, Occurrence.evaluates_eq ho, h.1, hprepared] at hpass
      exact hpass
    · rw [if_neg h, if_neg h]
      exact .nil _

/-- Receiving a value is one occurrence and the pass after it, or nothing. -/
theorem leads_inject (r : Runner) (w : World H) (i : Nat) (value : Value) :
    Leads ctx (r, w) (r.receptionTranscript ctx w i value) (r.inject ctx w i value) := by
  cases hn : r.graph.nodes[i]? with
  | none =>
    rw [receptionTranscript, inject, hn]
    exact .nil _
  | some n =>
    have ho : (⟨⟨r.graph, w⟩, i, .received value⟩ : Occurrence H).before? = some n := hn
    rw [receptionTranscript, hn, inject_eq hn]
    dsimp only
    cases henabled : n.enabled with
    | false => exact .nil _
    | true =>
      cases hbridge : n.behavior.inputBridge? with
      | none => exact .nil _
      | some bridge =>
        dsimp only
        by_cases hsame : (n.ports.outputAt 0).same (bridge.cast.apply value) = true
        · rw [if_pos hsame, if_pos hsame]
          exact .nil _
        · rw [if_neg hsame, if_neg hsame]
          have hpass := leads_pass ctx r rfl ho (.received henabled hbridge)
          have hprepared := Occurrence.prepared_eq ho
          unfold Occasion.prepare at hprepared
          dsimp only at hprepared
          rw [hbridge] at hprepared
          rw [Occurrence.next, Occurrence.changed, Occurrence.evaluates_eq ho, hprepared] at hpass
          exact hpass

/-- A fire is one occurrence and the pass after it if its timer is in force, and nothing
otherwise. -/
theorem leads_onTimer (r : Runner) (w : World H) (fire : Fire) :
    Leads ctx (r, w) (r.fireTranscript ctx w fire) (r.onTimer ctx w fire) := by
  unfold fireTranscript onTimer
  cases r.graph.indexOf? fire.node with
  | none => exact .nil _
  | some i =>
    dsimp only
    cases hn : r.graph.nodes[i]? with
    | none => exact .nil _
    | some n =>
      dsimp only
      cases htimers : n.timers.takeFired? fire.key fire.token with
      | none => exact .nil _
      | some timers =>
        obtain ⟨timer, htimer, hkey, htoken, hperm, hsub⟩ := ArmedTimers.exists_of_fired? htimers
        have ho : (⟨⟨r.graph, w⟩, i, .fired timer⟩ : Occurrence H).before? = some n := hn
        have htaken : n.timers.takeFired? timer.key timer.token = some timers := by
          rw [hkey, htoken, htimers]
        have hprepared : (⟨⟨r.graph, w⟩, i, .fired timer⟩ : Occurrence H).prepared =
            ⟨(r.release i n timers).graph, w⟩ := by
          rw [Occurrence.prepared_eq ho, Occasion.prepare, htaken]
          rfl
        rw [htimer]
        dsimp only
        by_cases henabled : n.enabled = true
        · have hpass := leads_pass ctx r rfl ho (.fired htaken hperm hsub)
          rw [Occurrence.next, Occurrence.changed, Occurrence.evaluates_eq ho, henabled, hprepared,
            show (Occasion.fired timer).trigger = .timer fire.key by rw [← hkey]; rfl] at hpass
          rw [if_pos henabled]
          exact hpass
        · -- a disabled node starts no pass
          have hsingle := Stage.Leads.single ctx ho (.fired htaken hperm hsub)
          have hevaluates := Occurrence.evaluates_eq ho
          rw [Bool.eq_false_iff.2 henabled, Bool.and_false] at hevaluates
          rw [Occurrence.next, hevaluates, hprepared] at hsingle
          have hpass : Occurrence.transcript ctx ⟨⟨r.graph, w⟩, i, .fired timer⟩ =
              [⟨⟨r.graph, w⟩, i, .fired timer⟩] := by
            rw [Occurrence.transcript, Occurrence.changed, hevaluates]
            exact congrArg (_ :: ·) (Stage.transcript_of_nil ctx _ _)
          rw [if_neg henabled, hpass]
          exact hsingle

/-- A task goes from one stage to the next by what happens in it. -/
theorem leads_perform (r : Runner) (w : World H) (task : Task) :
    Leads ctx (r, w) (r.transcript ctx w task) (r.perform ctx w task) := by
  cases task with
  | receive i value => exact leads_inject r w i value
  | fire fire => exact leads_onTimer r w fire
  | prime =>
    exact foldNotes_induct (R := Leads ctx) (fun _ => .nil _) (fun h h' => h.trans h')
      (fun state i _ => leads_primeNode state i) (r, w)

end Runner

/-! ### Nodes -/

namespace Node

/-- The node becomes another one by these occurrences, one after the other. -/
inductive Becomes (ctx : LoadContext) (n₀ : Node) : List (Occurrence H) → Node → Prop
  | nil : Becomes ctx n₀ [] n₀
  | snoc {os : List (Occurrence H)} {o : Occurrence H} {n n' : Node}
    (hbecomes : Becomes ctx n₀ os n) (hbefore : o.before? = some n)
    (hafter : o.after? ctx = some n')
    (hundergoes : n.Undergoes (o.episode ctx) n') : Becomes ctx n₀ (os ++ [o]) n'

variable {n₀ n n' : Node} {os os' : List (Occurrence H)}

theorem Becomes.trans (h : n₀.Becomes ctx os n) (h' : n.Becomes ctx os' n') :
    n₀.Becomes ctx (os ++ os') n' := by
  induction h' with
  | nil =>
    rw [List.append_nil]
    exact h
  | snoc _ hbefore hafter hundergoes ih =>
    rw [← List.append_assoc]
    exact .snoc ih hbefore hafter hundergoes

/-- What has happened to the node is split at an occurrence. -/
theorem Becomes.split {before after : List (Occurrence H)} {o : Occurrence H}
    (h : n₀.Becomes ctx (before ++ o :: after) n) :
    ∃ n₁ n₂, n₀.Becomes ctx before n₁ ∧ o.before? = some n₁ ∧ o.after? ctx = some n₂ ∧
      n₁.Undergoes (o.episode ctx) n₂ ∧ n₂.Becomes ctx after n := by
  induction after using List.reverseRecOn generalizing n with
  | nil =>
    generalize hos : before ++ [o] = os at h
    cases h with
    | nil => simp at hos
    | snoc hbecomes hbefore hafter hundergoes =>
      obtain ⟨rfl, rfl⟩ : _ ∧ _ := by simpa using List.append_inj' hos rfl
      exact ⟨_, n, hbecomes, hbefore, hafter, hundergoes, .nil⟩
  | append_singleton after last ih =>
    generalize hos : before ++ o :: (after ++ [last]) = os at h
    cases h with
    | nil => simp at hos
    | snoc hbecomes hbefore hafter hundergoes =>
      rw [← List.cons_append, ← List.append_assoc] at hos
      obtain ⟨rfl, rfl⟩ : _ ∧ _ := by simpa using List.append_inj' hos rfl
      obtain ⟨n₁, n₂, hfirst, hbefore', hafter', hundergoes', hrest⟩ := ih hbecomes
      exact ⟨n₁, n₂, hfirst, hbefore', hafter', hundergoes', .snoc hrest hbefore hafter hundergoes⟩

/-- Without the stages, the occurrences are the life of the node. -/
theorem Becomes.lives (h : n₀.Becomes ctx os n) :
    n₀.Lives (os.map (Occurrence.episode ctx)) n := by
  induction h with
  | nil => exact .nil
  | snoc _ _ _ hundergoes ih =>
    rw [List.map_append]
    exact .snoc ih hundergoes

end Node

/-- What happens to node `i` of a graph. -/
def occurrencesOf (i : Nat) (os : List (Occurrence H)) : List (Occurrence H) :=
  os.filter fun o => o.node == i

/-- Each node of a graph becomes what it is by its own occurrences. -/
theorem Graph.Becomes.exists_node {g g' : Graph} {os : List (Occurrence H)}
    (h : g.Becomes ctx os g') {i : Nat} {n : Node} (hn : g.nodes[i]? = some n) :
    ∃ n', g'.nodes[i]? = some n' ∧ n.Becomes ctx (occurrencesOf i os) n' := by
  induction h generalizing n with
  | nil => exact ⟨n, hn, .nil⟩
  | @cons o os g' m m' hbefore hundergoes hnext _ ih =>
    rw [hnext] at ih
    by_cases hi : o.node = i
    -- the first occurrence is one of this node, which it changes as `hundergoes` says
    · subst hi
      obtain rfl : m = n := Option.some.inj (hbefore.symm.trans hn)
      obtain ⟨n', hn', hbecomes⟩ := ih (Graph.getElem?_replace_self hn)
      have hafter : o.after? ctx = some m' := by
        rw [Occurrence.after?, hnext]
        exact Graph.getElem?_replace_self hn
      have hfirst : m.Becomes ctx [o] m' := .snoc .nil hbefore hafter hundergoes
      refine ⟨n', hn', ?_⟩
      rw [occurrencesOf, List.filter_cons_of_pos (by simp)]
      exact hfirst.trans hbecomes
    · obtain ⟨n', hn', hbecomes⟩ := ih ((Graph.getElem?_replace_ne hi).trans hn)
      refine ⟨n', hn', ?_⟩
      -- the first occurrence is one of another node and leaves this one alone
      rw [occurrencesOf, List.filter_cons_of_neg (by simpa using hi)]
      exact hbecomes

/-- Every node of the later graph comes from a node of the earlier one. -/
theorem Graph.Becomes.exists_origin {g g' : Graph} {os : List (Occurrence H)}
    (h : g.Becomes ctx os g') {i : Nat} {n' : Node} (hn' : g'.nodes[i]? = some n') :
    ∃ n, g.nodes[i]? = some n ∧ n.Becomes ctx (occurrencesOf i os) n' := by
  have hi : i < g.nodes.size := h.size_eq ▸ lt_size_of_getElem? hn'
  obtain ⟨m, hm, hbecomes⟩ := h.exists_node (Array.getElem?_eq_getElem hi)
  obtain rfl : m = n' := Option.some.inj (hm.symm.trans hn')
  exact ⟨_, Array.getElem?_eq_getElem hi, hbecomes⟩

/-! ### Runs -/

namespace Engine

variable {e e' e'' : Engine H} {os os' : List (Nat × Occurrence H)}

/-- What happens to the nodes of one running graph. -/
def occurrencesIn (i : Nat) (os : List (Nat × Occurrence H)) : List (Occurrence H) :=
  os.filterMap fun x => if x.1 = i then some x.2 else none

/-- What happens to a node of a running graph, both given by their numbers. -/
def occurrences (i j : Nat) (os : List (Nat × Occurrence H)) : List (Occurrence H) :=
  occurrencesOf j (occurrencesIn i os)

/-- The running graphs of `e'` are running graphs of `e`, which have become what they are by these
occurrences, in one and the same context. -/
structure Becomes (e : Engine H) (os : List (Nat × Occurrence H)) (e' : Engine H) : Prop where
  context_eq : e'.context = e.context
  exists_runner : ∀ {i : Nat} {r' : Runner}, e'.runners[i]? = some r' →
    ∃ r, e.runners[i]? = some r ∧ r.graph.Becomes e.context (occurrencesIn i os) r'.graph

namespace Becomes

theorem nil (hcontext : e'.context = e.context) (hrunners : e'.runners = e.runners) :
    e.Becomes [] e' :=
  ⟨hcontext, fun hr' => ⟨_, hrunners ▸ hr', .nil _⟩⟩

theorem trans (h : e.Becomes os e') (h' : e'.Becomes os' e'') : e.Becomes (os ++ os') e'' := by
  refine ⟨h'.context_eq.trans h.context_eq, fun hr'' => ?_⟩
  obtain ⟨r', hr', hbecomes'⟩ := h'.exists_runner hr''
  obtain ⟨r, hr, hbecomes⟩ := h.exists_runner hr'
  refine ⟨r, hr, ?_⟩
  rw [occurrencesIn, List.filterMap_append]
  exact hbecomes.trans (h.context_eq ▸ hbecomes')

/-- A job is a list of occurrences in its own runner; the other runners stay as they are. -/
theorem perform (e : Engine H) (job : Job) : e.Becomes (e.jobTranscript job) (e.perform job) := by
  unfold jobTranscript Engine.perform updateRunner
  cases hr : e.runners[job.runner]? with
  | none => exact nil rfl rfl
  | some r =>
    refine ⟨rfl, fun {i r'} hr' => ?_⟩
    dsimp only at hr'
    by_cases hi : job.runner = i
    · subst hi
      rw [getElem?_setIfInBounds_of_some hr] at hr'
      cases hr'
      refine ⟨r, hr, ?_⟩
      -- every occurrence of the job is one in its runner, so the filter keeps all of them
      have hown : occurrencesIn job.runner ((r.transcript e.context e.world job.task).map
          fun o => (job.runner, o)) = r.transcript e.context e.world job.task := by
        rw [occurrencesIn, List.filterMap_map]
        refine (List.filterMap_congr fun o _ => ?_).trans List.filterMap_some
        exact if_pos rfl
      rw [hown]
      exact (r.leads_perform e.world job.task).becomes
    · rw [Array.getElem?_setIfInBounds_ne hi] at hr'
      refine ⟨r', hr', ?_⟩
      have hother : occurrencesIn i ((r.transcript e.context e.world job.task).map
          fun o => (job.runner, o)) = [] := by
        rw [occurrencesIn, List.filterMap_map, List.filterMap_eq_nil_iff]
        exact fun o _ => if_neg hi
      rw [hother]
      exact .nil _

/-- A load starts from the new graphs. -/
theorem install (e : Engine H) (c : Configuration) :
    (e.assemble c).Becomes (e.installTranscript c) (e.install c).2 :=
  installTranscript_induct (fun _ => nil rfl rfl) (fun h h' => h.trans h') perform
    (fun _ _ => nil rfl rfl) e c

theorem act (e : Engine H) {a : Action H} (ha : ∀ c, a ≠ .install c) :
    e.Becomes (e.actionTranscript a) (e.act a) := by
  cases a with
  | install c => exact (ha c rfl).elim
  | stop => exact ⟨rfl, fun hr => nomatch hr⟩
  | post | outside => exact nil rfl rfl
  | turn =>
    exact turnTranscript_induct (fun _ => nil rfl rfl) (fun h h' => h.trans h') perform
      (fun _ _ => nil rfl rfl) e

end Becomes

end Engine

end SignalGraph
