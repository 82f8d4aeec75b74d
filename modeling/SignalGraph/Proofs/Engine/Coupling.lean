import SignalGraph.Proofs.Engine.Ledger
import SignalGraph.Proofs.SideBySide

/-!
# Graphs at work side by side

Two graphs are twins if they differ in the tokens and the tickets of their timers alone
(`Graph.Twin`). A `Coupling` relates two worlds and the armings of two twins, paired off, in such a
way that it survives host calls, cancelling and scheduling made on both sides. Since a node sees of
its timers no more than which keys are armed (`Behavior.react_congr`), twins in coupled worlds do
the same: an evaluation, a whole pass, an injection, the priming and a fire leave twins in coupled
worlds again (`Coupling.pass`, `Coupling.inject`, `Coupling.prime`, `Coupling.onTimer`).
-/

namespace SignalGraph

/-! ### Twins -/

/-- A node sees of its timers no more than which keys are armed. -/
theorem Behavior.react_congr (b : Behavior) {v v' : View} (htrigger : v'.trigger = v.trigger)
    (hports : v'.ports = v.ports) (hreading : v'.reading = v.reading)
    (harmed : ∀ key, v'.isArmed key = v.isArmed key) : b.react v' = b.react v := by
  obtain ⟨trigger, ports, timers, reading⟩ := v
  obtain ⟨trigger', ports', timers', reading'⟩ := v'
  obtain rfl : trigger' = trigger := htrigger
  obtain rfl : ports' = ports := hports
  obtain rfl : reading' = reading := hreading
  cases b with
  | delayOn | delayOff | pulse =>
    simp only [react, DelayOn.react, DelayOff.react, Pulse.react, harmed]
    rfl
  | _ => rfl

namespace ArmedTimers

/-- Timers under the same keys, in the same order. -/
abbrev SameKeys (timers timers' : ArmedTimers) : Prop :=
  List.Forall₂ (fun t t' : ArmedTimer => t'.key = t.key) timers timers'

variable {timers timers' : ArmedTimers}

theorem SameKeys.isArmed_eq (h : timers.SameKeys timers') (key : TimerKey) :
    timers'.isArmed key = timers.isArmed key := by
  unfold isArmed
  induction h with
  | nil => rfl
  | cons hkey _ ih => rw [List.any_cons, List.any_cons, ih, hkey]

/-- Two fires that mean the same timer are both refused, or they take a pair of timers away. -/
theorem SameKeys.takeFired?_cases (h : timers.SameKeys timers') {key : TimerKey}
    {token token' : Nat} (htoken : ∀ p ∈ timers.zip timers', p.1.key = key → p.2.key = key →
      (p.2.token = token' ↔ p.1.token = token)) :
    timers.takeFired? key token = none ∧ timers'.takeFired? key token' = none ∨
      ∃ t t' rest rest', timers.takeFired? key token = some rest ∧
        timers'.takeFired? key token' = some rest' ∧ SameKeys rest rest' ∧
        (t.key = key ∧ t.token = token) ∧ (t'.key = key ∧ t'.token = token') ∧
        (timers.zip timers').Perm ((t, t') :: rest.zip rest') := by
  let fired (token : Nat) (t : ArmedTimer) : Bool := t.key == key && t.token == token
  -- a pair of timers is meant on both sides or on none, so both lists are searched alike
  have hagree : ∀ p ∈ timers.zip timers', fired token' p.2 = fired token p.1 := by
    rintro ⟨t, t'⟩ hp
    have hkeys : t'.key = t.key := (List.forall₂_iff_zip.1 h).2 hp
    rw [Bool.eq_iff_iff]
    simp only [fired, Bool.and_eq_true, beq_iff_eq, hkeys]
    exact and_congr_right fun hkey => htoken (t, t') hp hkey (hkeys.trans hkey)
  have hany : ∀ {timers : ArmedTimers} {token : Nat},
      timers.any (fired token) = (List.find? (fired token) timers).isSome := by
    intro timers token
    rw [Bool.eq_iff_iff, List.any_eq_true, List.find?_isSome]
  unfold ArmedTimers.takeFired?
  dsimp only
  rw [show timers.any _ = _ from hany, show timers'.any _ = _ from hany]
  rcases forall₂_find? h hagree with ⟨hnone, hnone'⟩ | ⟨t, t', ht, ht', hrest, hperm⟩
  · rw [hnone, hnone']
    exact .inl ⟨rfl, rfl⟩
  · rw [ht, ht']
    have hfired := List.find?_some ht
    have hfired' := List.find?_some ht'
    simp only [fired, Bool.and_eq_true, beq_iff_eq] at hfired hfired'
    exact .inr ⟨t, t', _, _, rfl, rfl, hrest, hfired, hfired', hperm⟩

/-- The timers of two nodes, each with the address it was armed with. -/
def pairings (generation generation' : Nat) (graph node : String) (timers timers' : ArmedTimers) :
    List (Arming × Arming) :=
  (timers.zip timers').map
    (Prod.map (ArmedTimer.arming generation graph node) (ArmedTimer.arming generation' graph node))

end ArmedTimers

/-- Nodes that differ in the tokens and the tickets of their timers alone. -/
structure Node.Twin (n n' : Node) : Prop where
  eq : n' = { n with timers := n'.timers }
  keys : n.timers.SameKeys n'.timers

/-- Graphs that differ in the tokens and the tickets of their timers alone. -/
structure Graph.Twin (g g' : Graph) : Prop where
  id_eq : g'.id = g.id
  links_eq : g'.links = g.links
  nodes : List.Forall₂ Node.Twin g.nodes.toList g'.nodes.toList

/-- The timers of two graphs, paired off. -/
def Graph.pairings (generation generation' : Nat) (g g' : Graph) : List (Arming × Arming) :=
  (g.nodes.toList.zip g'.nodes.toList).flatMap fun p =>
    p.1.timers.pairings generation generation' g.id p.1.id p.2.timers

namespace Node

theorem Twin.refl (n : Node) : n.Twin n :=
  ⟨rfl, List.forall₂_same.2 fun _ _ => rfl⟩

variable {n n' : Node}

theorem Twin.id_eq (h : n.Twin n') : n'.id = n.id := by
  rw [h.eq]

theorem Twin.enabled_eq (h : n.Twin n') : n'.enabled = n.enabled := by
  rw [h.eq]

theorem Twin.behavior_eq (h : n.Twin n') : n'.behavior = n.behavior := by
  rw [h.eq]

theorem Twin.ports_eq (h : n.Twin n') : n'.ports = n.ports := by
  rw [h.eq]

/-- Twins react alike. -/
theorem Twin.react_eq (h : n.Twin n') (trigger : Trigger) (reading : Reading) :
    n'.behavior.react (n'.view trigger reading) = n.behavior.react (n.view trigger reading) := by
  rw [h.behavior_eq]
  exact Behavior.react_congr _ rfl h.ports_eq rfl h.keys.isArmed_eq

/-- Twins that receive the same value stay twins. -/
theorem Twin.receive (h : n.Twin n') (port : Nat) (value : Value) :
    (n.receive port value).Twin (n'.receive port value) := by
  refine ⟨?_, h.keys⟩
  rw [h.eq]
  rfl

/-- Twins that are made to show the same value stay twins. -/
theorem Twin.showing (h : n.Twin n') (value : Value) :
    (n.showing value).Twin (n'.showing value) := by
  refine ⟨?_, h.keys⟩
  rw [h.eq]
  rfl

/-- Twins stay twins by the same reaction, if it arms the same keys. -/
theorem Twin.after (h : n.Twin n') (r : Reaction Behavior) {timers timers' : ArmedTimers}
    (hkeys : timers.SameKeys timers') : (n.after r timers).Twin (n'.after r timers') := by
  refine ⟨?_, hkeys⟩
  rw [h.eq]
  rfl

end Node

namespace Graph

theorem Twin.refl (g : Graph) : g.Twin g :=
  ⟨rfl, rfl, List.forall₂_same.2 fun n _ => .refl n⟩

variable {g g' : Graph} {i : Nat} {n n' : Node}

theorem Twin.size_eq (h : g.Twin g') : g'.nodes.size = g.nodes.size := by
  rw [← Array.length_toList, ← Array.length_toList]
  exact h.nodes.length_eq.symm

/-- Twins have a node at the same places, and the nodes are twins. -/
theorem Twin.nodes_cases (h : g.Twin g') (i : Nat) :
    g.nodes[i]? = none ∧ g'.nodes[i]? = none ∨
      ∃ n n', g.nodes[i]? = some n ∧ g'.nodes[i]? = some n' ∧ n.Twin n' := by
  simpa only [Array.getElem?_toList] using forall₂_getElem? h.nodes i

/-- Twins stay twins when twins take the places of their nodes. -/
theorem Twin.replace (h : g.Twin g') (i : Nat) (hn : n.Twin n') :
    (g.replace i n).Twin (g'.replace i n') := by
  refine ⟨h.id_eq, h.links_eq, ?_⟩
  simpa only [Graph.replace, Array.toList_setIfInBounds] using forall₂_set h.nodes i hn

theorem Twin.outputAt_eq (h : g.Twin g') (p : PortRef) : g'.outputAt p = g.outputAt p := by
  unfold outputAt
  rcases h.nodes_cases p.node with ⟨hn, hn'⟩ | ⟨n, n', hn, hn', htwin⟩
  · rw [hn, hn']
  · rw [hn, hn']
    show n'.ports.outputAt _ = n.ports.outputAt _
    rw [htwin.ports_eq]

theorem Twin.targets_eq (h : g.Twin g') (source : PortRef) :
    g'.targets source = g.targets source := by
  rw [targets, targets, h.links_eq]

/-- Nodes of twins are found by the same ids. -/
theorem Twin.indexOf?_eq (h : g.Twin g') (id : String) : g'.indexOf? id = g.indexOf? id := by
  have hlist (g : Graph) : g.indexOf? id = g.nodes.toList.findIdx? fun n => n.id == id :=
    List.findIdx?_toArray _ g.nodes.toList
  have hnodes := h.nodes
  rw [hlist, hlist]
  generalize g.nodes.toList = nodes at hnodes ⊢
  generalize g'.nodes.toList = nodes' at hnodes ⊢
  induction hnodes with
  | nil => rfl
  | cons htwin _ ih => rw [List.findIdx?_cons, List.findIdx?_cons, ih, htwin.id_eq]

/-- Of the timers of two graphs, those of one node can be told apart from the others. -/
theorem exists_pairings_perm (generation generation' : Nat) (hn : g.nodes[i]? = some n)
    (hn' : g'.nodes[i]? = some n') : ∃ others,
      (g.pairings generation generation' g').Perm
        (n.timers.pairings generation generation' g.id n.id n'.timers ++ others) ∧
      ∀ m m' : Node, ((g.replace i m).pairings generation generation' (g'.replace i m')).Perm
        (m.timers.pairings generation generation' g.id m.id m'.timers ++ others) := by
  have hzip : ((g.nodes.toList.zip g'.nodes.toList).toArray)[i]? = some (n, n') := by
    rw [List.getElem?_toArray, List.getElem?_zip_eq_some, Array.getElem?_toList,
      Array.getElem?_toList]
    exact ⟨hn, hn'⟩
  obtain ⟨others, hperm, hreplaced⟩ := exists_flatMap_perm
    (fun p : Node × Node => p.1.timers.pairings generation generation' g.id p.1.id p.2.timers) hzip
  refine ⟨others, hperm, fun m m' => ?_⟩
  have hset := hreplaced (m, m')
  rw [Array.toList_setIfInBounds, List.toList_toArray, ← zip_set] at hset
  simpa only [pairings, replace, Array.toList_setIfInBounds] using hset

end Graph

/-- Where two timers that are paired off come from. -/
theorem Graph.mem_pairings {g g' : Graph} {generation generation' : Nat} {p : Arming × Arming}
    (hp : p ∈ g.pairings generation generation' g') :
    ∃ n n' t t', (n, n') ∈ g.nodes.toList.zip g'.nodes.toList ∧ (t, t') ∈ n.timers.zip n'.timers ∧
      p = (t.arming generation g.id n.id, t'.arming generation' g.id n.id) := by
  obtain ⟨⟨n, n'⟩, hn, hp⟩ := List.mem_flatMap.1 hp
  obtain ⟨⟨t, t'⟩, ht, rfl⟩ := List.mem_map.1 hp
  exact ⟨n, n', t, t', hn, ht, rfl⟩

/-- Timers of twins that are paired off have the same node and the same key. -/
theorem Graph.Twin.fire_eq {g g' : Graph} {generation generation' : Nat} {p : Arming × Arming}
    (h : g.Twin g') (hp : p ∈ g.pairings generation generation' g') :
    p.1.fire = ⟨generation, g.id, p.1.fire.node, p.1.fire.key, p.1.fire.token⟩ ∧
      p.2.fire = ⟨generation', g.id, p.1.fire.node, p.1.fire.key, p.2.fire.token⟩ := by
  obtain ⟨n, n', t, t', hn, ht, rfl⟩ := mem_pairings hp
  have htwin : n.Twin n' := (List.forall₂_iff_zip.1 h.nodes).2 hn
  have hkey : t'.key = t.key := (List.forall₂_iff_zip.1 htwin.keys).2 ht
  refine ⟨rfl, ?_⟩
  unfold ArmedTimer.arming
  rw [hkey]

/-- Timers of twins that are paired off are told by their node and their key. -/
theorem Graph.Twin.eq_of_mem_pairings {g g' : Graph} {generation generation' : Nat}
    {p q : Arming × Arming} (h : g.Twin g') (hs : g.Sound)
    (hp : p ∈ g.pairings generation generation' g') (hq : q ∈ g.pairings generation generation' g')
    (hnode : p.1.fire.node = q.1.fire.node) (hkey : p.1.fire.key = q.1.fire.key) : p = q := by
  obtain ⟨n, n', t, t', hn, ht, rfl⟩ := mem_pairings hp
  obtain ⟨m, m', u, u', hm, hu, rfl⟩ := mem_pairings hq
  obtain ⟨rfl, rfl⟩ := Prod.mk.inj
    (eq_of_mem_zip h.nodes.length_eq hs.nodup_ids hn hm (f := Node.id) hnode)
  have htwin : n.Twin n' := (List.forall₂_iff_zip.1 h.nodes).2 hn
  obtain ⟨i, hi⟩ := List.getElem?_of_mem (List.of_mem_zip hn).1
  rw [Array.getElem?_toList] at hi
  obtain ⟨rfl, rfl⟩ := Prod.mk.inj
    (eq_of_mem_zip htwin.keys.length_eq (hs.uniqueKeys i n hi) ht hu (f := ArmedTimer.key) hkey)
  rfl

/-- A timer of a graph that is paired off is not refused. -/
theorem Graph.not_refused_of_mem_pairings {g g' : Graph} {generation generation' : Nat}
    {p : Arming × Arming} (hs : g.Sound) (hp : p ∈ g.pairings generation generation' g') :
    ¬ ∀ i n, g.indexOf? p.1.fire.node = some i → g.nodes[i]? = some n →
      n.timers.takeFired? p.1.fire.key p.1.fire.token = none := by
  obtain ⟨n, n', t, t', hn, ht, rfl⟩ := mem_pairings hp
  obtain ⟨i, hi⟩ := List.getElem?_of_mem (List.of_mem_zip hn).1
  rw [Array.getElem?_toList] at hi
  intro hrefused
  exact ArmedTimers.takeFired?_ne_none (List.of_mem_zip ht).1
    (hrefused i n (hs.indexOf?_id hi) hi)

/-- Paired off with itself, a graph has each timer paired with itself. -/
theorem Graph.eq_of_mem_pairings_self {g : Graph} {generation : Nat} {p : Arming × Arming}
    (hp : p ∈ g.pairings generation generation g) : p.1 = p.2 := by
  obtain ⟨⟨n, n'⟩, hn, hp⟩ := List.mem_flatMap.1 hp
  obtain ⟨⟨t, t'⟩, ht, rfl⟩ := List.mem_map.1 hp
  obtain rfl : n = n' := eq_of_mem_zip_self hn
  obtain rfl : t = t' := eq_of_mem_zip_self ht
  rfl

/-! ### Couplings -/

/-- Schedules a timer of a node under a fresh token, without regard to those it has armed. -/
def World.book {H : Type} (w : World H) (generation : Nat) (graph node : String) (key : TimerKey)
    (delay : Nat) : Arming × World H :=
  let fire : Fire := ⟨generation, graph, node, key, w.nextToken⟩
  let (ticket, w) := { w with nextToken := w.nextToken + 1 }.schedule delay fire
  (⟨fire, ticket⟩, w)

/-- A relation between two worlds and the timers that twins hold in them, which survives what the
nodes of the graph with this id do on both sides. -/
structure Coupling {H K : Type} [Host H] [Host K] (ctx ctx' : LoadContext) (graph : String)
    (Q : World H → World K → List (Arming × Arming) → Prop) : Prop where
  settings_eq : ctx'.settings = ctx.settings
  scenes_eq : ctx'.scenes = ctx.scenes
  perm : ∀ {w w' l l'}, l.Perm l' → Q w w' l → Q w w' l'
  reading : ∀ {w w' l}, Q w w' l → w'.reading ctx.settings = w.reading ctx.settings
  write : ∀ {w w' l} signal value ack, Q w w' l →
    Q (w.write signal value ack) (w'.write signal value ack) l
  resolve : ∀ {w w' l} scene, Q w w' l →
    (w'.resolve scene).1 = (w.resolve scene).1 ∧ Q (w.resolve scene).2 (w'.resolve scene).2 l
  /-- Two timers that are paired off are cancelled. -/
  cancel : ∀ {w w' l} (fire fire' : Fire) (timer timer' : ArmedTimer),
    Q w w' ((⟨fire, timer.ticket⟩, ⟨fire', timer'.ticket⟩) :: l) →
    Q (w.cancelTimer timer) (w'.cancelTimer timer') l
  /-- A timer of one node is scheduled on both sides. -/
  book : ∀ {w w' l} node key delay, Q w w' l →
    Q (w.book ctx.generation graph node key delay).2
      (w'.book ctx'.generation graph node key delay).2
      (((w.book ctx.generation graph node key delay).1,
        (w'.book ctx'.generation graph node key delay).1) :: l)

namespace Coupling

variable {H K : Type} [Host H] [Host K] {ctx ctx' : LoadContext} {graph : String}
  {Q : World H → World K → List (Arming × Arming) → Prop}

/-! ### Commands -/

section Commands

/-- The timers of one node and the world, on both sides. -/
structure Hands (ctx ctx' : LoadContext) (graph node : String)
    (Q : World H → World K → List (Arming × Arming) → Prop) (rest : List (Arming × Arming))
    (a : ArmedTimers × World H) (a' : ArmedTimers × World K) : Prop where
  keys : a.1.SameKeys a'.1
  worlds : Q a.2 a'.2
    (a.1.pairings ctx.generation ctx'.generation graph node a'.1 ++ rest)

variable {node : String} {rest : List (Arming × Arming)} {timers timers' : ArmedTimers}
  {w : World H} {w' : World K}

/-- Both sides cancel the timer under a key, if there is one, and the rest stays coupled. -/
theorem disarm (hQ : Coupling ctx ctx' graph Q) (key : TimerKey)
    (h : Hands ctx ctx' graph node Q rest (timers, w) (timers', w')) :
    Hands ctx ctx' graph node Q rest (w.disarm timers key) (w'.disarm timers' key) := by
  have hkeys : timers.SameKeys timers' := h.keys
  let underKey (t : ArmedTimer) : Bool := t.key == key
  have hagree : ∀ p ∈ timers.zip timers', underKey p.2 = underKey p.1 := by
    rintro ⟨t, t'⟩ hp
    exact congrArg (· == key) ((List.forall₂_iff_zip.1 hkeys).2 hp)
  rcases forall₂_find? hkeys hagree with ⟨hnone, hnone'⟩ | ⟨t, t', ht, ht', hrest, hperm⟩
  · unfold World.disarm ArmedTimers.find?
    rw [hnone, hnone']
    exact h
  · unfold World.disarm ArmedTimers.find?
    rw [ht, ht']
    refine ⟨hrest, hQ.cancel (t.arming ctx.generation graph node).fire
      (t'.arming ctx'.generation graph node).fire t t' (hQ.perm ?_ h.worlds)⟩
    exact (hperm.map _).append_right rest

/-- Both sides arm a timer under a key, in place of the one before. -/
theorem arm (hQ : Coupling ctx ctx' graph Q) (key : TimerKey) (delay : Nat)
    (h : Hands ctx ctx' graph node Q rest (timers, w) (timers', w')) :
    Hands ctx ctx' graph node Q rest (w.arm ctx.generation graph node timers key delay)
      (w'.arm ctx'.generation graph node timers' key delay) := by
  have hdisarmed := hQ.disarm key h
  have hbooked := hQ.book node key delay hdisarmed.worlds
  refine ⟨List.rel_append hdisarmed.keys (.cons rfl .nil), hQ.perm ?_ hbooked⟩
  unfold World.arm ArmedTimers.pairings
  dsimp only
  rw [List.zip_append hdisarmed.keys.length_eq, List.map_append, List.append_assoc]
  exact List.perm_middle.symm

/-- A command leaves both sides alike, whether it arms, cancels, writes or triggers a scene. -/
theorem carryOut (hQ : Coupling ctx ctx' graph Q) (command : Command)
    (h : Hands ctx ctx' graph node Q rest (timers, w) (timers', w')) :
    Hands ctx ctx' graph node Q rest (World.carryOut ctx graph node (timers, w) command)
      (World.carryOut ctx' graph node (timers', w') command) := by
  cases command with
  | arm key delay => exact hQ.arm key delay h
  | cancel key => exact hQ.disarm key h
  | write signal value ack => exact ⟨h.keys, hQ.write signal value ack h.worlds⟩
  | trigger scene fallback payload ack pulse =>
    have hworlds :
        Q w w' (timers.pairings ctx.generation ctx'.generation graph node timers' ++ rest) :=
      h.worlds
    -- both sides find the same target
    have htarget : (w'.sceneTarget ctx'.scenes scene fallback).1 =
          (w.sceneTarget ctx.scenes scene fallback).1 ∧
        Q (w.sceneTarget ctx.scenes scene fallback).2 (w'.sceneTarget ctx'.scenes scene fallback).2
          (timers.pairings ctx.generation ctx'.generation graph node timers' ++ rest) := by
      unfold World.sceneTarget
      cases scene with
      | none => exact ⟨rfl, hworlds⟩
      | some scene =>
        obtain ⟨hanswer, hresolved⟩ := hQ.resolve scene hworlds
        exact ⟨by simp only [hanswer, hQ.scenes_eq], hresolved⟩
    simp only [World.carryOut]
    generalize w.sceneTarget ctx.scenes scene fallback = found at htarget
    generalize w'.sceneTarget ctx'.scenes scene fallback = found' at htarget
    obtain ⟨target, v⟩ := found
    obtain ⟨target', v'⟩ := found'
    obtain ⟨heq, hfound⟩ := htarget
    obtain rfl : target' = target := heq
    cases target' with
    | none => exact ⟨h.keys, hfound⟩
    | some signal =>
      have hwritten : Hands ctx ctx' graph node Q rest (timers, v.write signal payload ack)
          (timers', v'.write signal payload ack) := ⟨h.keys, hQ.write signal payload ack hfound⟩
      dsimp only
      split
      · exact hwritten
      · exact hQ.arm (.pulse signal) pulse hwritten

/-- The same for the commands of a reaction, one after the other. -/
theorem commands (hQ : Coupling ctx ctx' graph Q) (commands : List Command)
    (h : Hands ctx ctx' graph node Q rest (timers, w) (timers', w')) :
    Hands ctx ctx' graph node Q rest
      (commands.foldl (World.carryOut ctx graph node) (timers, w))
      (commands.foldl (World.carryOut ctx' graph node) (timers', w')) := by
  induction commands generalizing timers timers' w w' with
  | nil => exact h
  | cons command commands ih => exact ih (hQ.carryOut command h)

end Commands

/-! ### Evaluations and passes -/

/-- Twins at work in coupled worlds. -/
structure Stages (ctx ctx' : LoadContext) (graph : String)
    (Q : World H → World K → List (Arming × Arming) → Prop) (s : Stage H) (s' : Stage K) :
    Prop where
  id_eq : s.graph.id = graph
  twins : s.graph.Twin s'.graph
  worlds : Q s.world s'.world (s.graph.pairings ctx.generation ctx'.generation s'.graph)

section Passes

variable {s : Stage H} {s' : Stage K} {i : Nat} {n n' : Node}

/-- Twins are replaced by twins with the same timers. -/
theorem replace (hQ : Coupling ctx ctx' graph Q) (h : Stages ctx ctx' graph Q s s')
    (hn : s.graph.nodes[i]? = some n) (hn' : s'.graph.nodes[i]? = some n') {m m' : Node}
    (hm : m.Twin m') (hid : m.id = n.id) (htimers : m.timers = n.timers)
    (htimers' : m'.timers = n'.timers) :
    Stages ctx ctx' graph Q { s with graph := s.graph.replace i m }
      { s' with graph := s'.graph.replace i m' } := by
  refine ⟨h.id_eq, h.twins.replace i hm, ?_⟩
  obtain ⟨others, hperm, hreplaced⟩ :=
    Graph.exists_pairings_perm ctx.generation ctx'.generation hn hn'
  refine hQ.perm ?_ h.worlds
  have hafter := hreplaced m m'
  rw [hid, htimers, htimers'] at hafter
  exact hperm.trans hafter.symm

/-- Twins have reacted, possibly with other ports. -/
theorem react (hQ : Coupling ctx ctx' graph Q) (h : Stages ctx ctx' graph Q s s')
    (hn : s.graph.nodes[i]? = some n) (hn' : s'.graph.nodes[i]? = some n') {m m' : Node}
    (hm : m.Twin m') (hid : m.id = n.id) (htimers : m.timers = n.timers)
    (htimers' : m'.timers = n'.timers) (r : Reaction Behavior) :
    Stages ctx ctx' graph Q (s.react ctx i m r) (s'.react ctx' i m' r) := by
  obtain ⟨others, hperm, hreplaced⟩ :=
    Graph.exists_pairings_perm ctx.generation ctx'.generation hn hn'
  obtain rfl := h.id_eq
  have hbefore :
      Hands ctx ctx' s.graph.id m.id Q others (m.timers, s.world) (m'.timers, s'.world) := by
    refine ⟨hm.keys, hQ.perm ?_ h.worlds⟩
    rw [hid, htimers, htimers']
    exact hperm
  have hafter := hQ.commands r.commands hbefore
  have hobey' : s'.obey ctx' m' r =
      r.commands.foldl (World.carryOut ctx' s.graph.id m.id) (m'.timers, s'.world) := by
    rw [Stage.obey, h.twins.id_eq, hm.id_eq]
  rw [← hobey'] at hafter
  refine ⟨rfl, h.twins.replace i (hm.after r hafter.keys), hQ.perm ?_ hafter.worlds⟩
  exact (hreplaced (m.after r (s.obey ctx m r).1) (m'.after r (s'.obey ctx' m' r).1)).symm

/-- Twins that are evaluated change the same outputs. -/
theorem evaluate (hQ : Coupling ctx ctx' graph Q) (h : Stages ctx ctx' graph Q s s') (i : Nat)
    (trigger : Trigger) :
    Stages ctx ctx' graph Q (s.evaluate ctx i trigger).1 (s'.evaluate ctx' i trigger).1 ∧
      (s'.evaluate ctx' i trigger).2 = (s.evaluate ctx i trigger).2 := by
  rcases h.twins.nodes_cases i with ⟨hn, hn'⟩ | ⟨n, n', hn, hn', htwin⟩
  · unfold Stage.evaluate
    rw [hn, hn']
    exact ⟨h, rfl⟩
  · rw [Stage.evaluate_eq ctx s i trigger hn, Stage.evaluate_eq ctx' s' i trigger hn',
      hQ.settings_eq, hQ.reading h.worlds, htwin.react_eq]
    split
    · exact ⟨h, rfl⟩
    · next r hreact =>
      refine ⟨hQ.react h hn hn' htwin rfl rfl rfl r, ?_⟩
      rw [Stage.changed, Stage.changed, htwin.ports_eq]

/-- A value that is delivered leaves twins and has the same effect on the pass. -/
theorem deliver (hQ : Coupling ctx ctx' graph Q) (h : Stages ctx ctx' graph Q s s') (value : Value)
    (target : PortRef) :
    Stages ctx ctx' graph Q (s.deliver ctx value target).1 (s'.deliver ctx' value target).1 ∧
      (s'.deliver ctx' value target).2 = (s.deliver ctx value target).2 := by
  rcases h.twins.nodes_cases target.node with ⟨hn, hn'⟩ | ⟨n, n', hn, hn', htwin⟩
  · unfold Stage.deliver
    rw [hn, hn']
    exact ⟨h, rfl⟩
  · rw [Stage.deliver_eq hn, Stage.deliver_eq hn', htwin.ports_eq, htwin.enabled_eq]
    have hstored := hQ.replace h hn hn' (htwin.receive target.port value) rfl rfl rfl
    split
    · exact ⟨h, rfl⟩
    · split
      · exact hQ.evaluate hstored _ _
      · exact ⟨hstored, rfl⟩

theorem nextSource?_eq {g g' : Graph} (h : g.Twin g') (later sources : List PortRef) :
    Frontier.nextSource? g' later sources = Frontier.nextSource? g later sources := by
  induction sources with
  | nil => rfl
  | cons source rest ih =>
    unfold Frontier.nextSource?
    rw [h.targets_eq, h.outputAt_eq, ih]

/-- The next link that a pass follows is the same. -/
theorem next?_eq {g g' : Graph} (h : g.Twin g') (f : Frontier) : f.next? g' = f.next? g := by
  unfold Frontier.next?
  rw [nextSource?_eq h, nextSource?_eq h]

/-- So the rest of a pass follows the same links and is cut short on both sides or on none. -/
theorem propagate (hQ : Coupling ctx ctx' graph Q) (steps : Nat) (f : Frontier)
    (h : Stages ctx ctx' graph Q s s') :
    Stages ctx ctx' graph Q (s.propagate ctx steps f).stage (s'.propagate ctx' steps f).stage ∧
      (s'.propagate ctx' steps f).remaining = (s.propagate ctx steps f).remaining ∧
      (s'.propagate ctx' steps f).truncated = (s.propagate ctx steps f).truncated := by
  induction steps generalizing f s s' with
  | zero =>
    unfold Stage.propagate
    rw [next?_eq h.twins]
    split
    · exact ⟨h, rfl, rfl⟩
    · exact ⟨h, rfl, rfl⟩
  | succ steps ih =>
    unfold Stage.propagate
    rw [next?_eq h.twins]
    split
    · exact ⟨h, rfl, rfl⟩
    -- the delivery has the same effect on the frontier, and the step is counted on both sides
    · next value target f' _ =>
      obtain ⟨hdelivered, hchanged⟩ := hQ.deliver h value target
      dsimp only
      rw [hchanged]
      exact ih _ hdelivered

end Passes

/-! ### Running graphs -/

/-- Running twins with the same statistics, in coupled worlds. -/
structure Runners (ctx ctx' : LoadContext) (graph : String)
    (Q : World H → World K → List (Arming × Arming) → Prop) (a : Runner × World H)
    (a' : Runner × World K) : Prop where
  stages : Stages ctx ctx' graph Q ⟨a.1.graph, a.2⟩ ⟨a'.1.graph, a'.2⟩
  lastSteps_eq : a'.1.lastSteps = a.1.lastSteps
  truncatedPasses_eq : a'.1.truncatedPasses = a.1.truncatedPasses

section Runners

variable {r r' : Runner} {w : World H} {w' : World K} {i : Nat}

/-- A pass leaves twins in coupled worlds. -/
theorem pass (hQ : Coupling ctx ctx' graph Q) {s : Stage H} {s' : Stage K}
    (h : Stages ctx ctx' graph Q s s') (htruncated : r'.truncatedPasses = r.truncatedPasses)
    (changed : List PortRef) :
    Runners ctx ctx' graph Q (r.pass ctx s changed) (r'.pass ctx' s' changed) := by
  obtain ⟨hstages, hremaining, htruncates⟩ :=
    hQ.propagate ctx.settings.maxSteps (.ofSources changed) h
  unfold Runner.pass
  rw [hQ.settings_eq]
  refine ⟨hstages, ?_, ?_⟩
  · dsimp only
    rw [hremaining]
  · dsimp only
    rw [htruncates, htruncated]

/-- An evaluation and the pass after it leave twins in coupled worlds. -/
theorem runnerEvaluate (hQ : Coupling ctx ctx' graph Q)
    (h : Runners ctx ctx' graph Q (r, w) (r', w')) (i : Nat) (trigger : Trigger) :
    Runners ctx ctx' graph Q (r.evaluate ctx w i trigger) (r'.evaluate ctx' w' i trigger) := by
  obtain ⟨hevaluated, hchanged⟩ := hQ.evaluate h.stages i trigger
  unfold Runner.evaluate
  dsimp only
  rw [hchanged]
  exact hQ.pass hevaluated h.truncatedPasses_eq _

/-- A value that is injected leaves twins in coupled worlds. -/
theorem inject (hQ : Coupling ctx ctx' graph Q) (h : Runners ctx ctx' graph Q (r, w) (r', w'))
    (i : Nat) (value : Value) :
    Runners ctx ctx' graph Q (r.inject ctx w i value) (r'.inject ctx' w' i value) := by
  rcases h.stages.twins.nodes_cases i with ⟨hn, hn'⟩ | ⟨n, n', hn, hn', htwin⟩
  · dsimp only at hn hn'
    unfold Runner.inject
    rw [hn, hn']
    exact h
  · rw [Runner.inject_eq hn, Runner.inject_eq hn', htwin.behavior_eq, htwin.ports_eq,
      htwin.enabled_eq]
    split
    · next b henabled hbridge =>
      split
      · exact ⟨⟨h.stages.id_eq, h.stages.twins, h.stages.worlds⟩, rfl, h.truncatedPasses_eq⟩
      · have hshown := hQ.replace h.stages hn hn' (htwin.showing (b.cast.apply value)) rfl rfl rfl
        exact hQ.pass hshown h.truncatedPasses_eq _
    · exact h

theorem primeNode (hQ : Coupling ctx ctx' graph Q) (h : Runners ctx ctx' graph Q (r, w) (r', w'))
    (i : Nat) : Runners ctx ctx' graph Q (Runner.primeNode ctx (r, w) i)
      (Runner.primeNode ctx' (r', w') i) := by
  unfold Runner.primeNode
  rcases h.stages.twins.nodes_cases i with ⟨hn, hn'⟩ | ⟨n, n', hn, hn', htwin⟩
  · dsimp only at hn hn' ⊢
    rw [hn, hn']
    exact h
  · dsimp only at hn hn' ⊢
    rw [hn, hn']
    dsimp only
    rw [htwin.behavior_eq, htwin.enabled_eq]
    split
    · exact hQ.runnerEvaluate h i .inputs
    · exact h

/-- Priming a graph leaves twins in coupled worlds. -/
theorem prime (hQ : Coupling ctx ctx' graph Q) (h : Runners ctx ctx' graph Q (r, w) (r', w')) :
    Runners ctx ctx' graph Q (r.prime ctx w) (r'.prime ctx' w') := by
  have hsize : r'.graph.nodes.size = r.graph.nodes.size := h.stages.twins.size_eq
  unfold Runner.prime
  rw [hsize]
  generalize List.range r.graph.nodes.size = l
  clear hsize
  induction l generalizing r r' w w' with
  | nil => exact h
  | cons i rest ih => exact ih (hQ.primeNode h i)

/-- Two fires that mean the same timer of twins are both refused, or they take a pair of timers
away; what they set going goes on alike from worlds that are coupled without that pair. -/
theorem onTimer (w : World H) (w' : World K) (h : r.graph.Twin r'.graph)
    (hsteps : r'.lastSteps = r.lastSteps)
    (htruncated : r'.truncatedPasses = r.truncatedPasses) {node : String} {key : TimerKey}
    {token token' : Nat}
    (hsame : ∀ p ∈ r.graph.pairings ctx.generation ctx'.generation r'.graph,
      (p.2.fire = ⟨ctx'.generation, r.graph.id, node, key, token'⟩ ↔
        p.1.fire = ⟨ctx.generation, r.graph.id, node, key, token⟩)) :
    r.onTimer ctx w ⟨ctx.generation, r.graph.id, node, key, token⟩ = (r, w) ∧
        r'.onTimer ctx' w' ⟨ctx'.generation, r.graph.id, node, key, token'⟩ = (r', w') ∧
        (∀ i n, r.graph.indexOf? node = some i → r.graph.nodes[i]? = some n →
          n.timers.takeFired? key token = none) ∨
      ∃ ticket ticket' others, (r.graph.pairings ctx.generation ctx'.generation r'.graph).Perm
          ((⟨⟨ctx.generation, r.graph.id, node, key, token⟩, ticket⟩,
            ⟨⟨ctx'.generation, r.graph.id, node, key, token'⟩, ticket'⟩) :: others) ∧
        ∀ {Q : World H → World K → List (Arming × Arming) → Prop},
          Coupling ctx ctx' r.graph.id Q → Q w w' others → Runners ctx ctx' r.graph.id Q
            (r.onTimer ctx w ⟨ctx.generation, r.graph.id, node, key, token⟩)
            (r'.onTimer ctx' w' ⟨ctx'.generation, r.graph.id, node, key, token'⟩) := by
  unfold Runner.onTimer
  rw [h.indexOf?_eq]
  dsimp only
  cases hindex : r.graph.indexOf? node with
  | none => exact .inl ⟨rfl, rfl, fun _ _ hi => nomatch hi⟩
  | some i =>
    dsimp only
    rcases h.nodes_cases i with ⟨hn, hn'⟩ | ⟨n, n', hn, hn', htwin⟩
    · rw [hn, hn']
      refine .inl ⟨rfl, rfl, fun j m hj hm => ?_⟩
      cases hj
      cases hn.symm.trans hm
    rw [hn, hn']
    dsimp only
    obtain rfl : n.id = node := Graph.id_of_indexOf? hindex hn
    -- the pairs of this node are split off from those of all others
    obtain ⟨others, hperm, hreplaced⟩ :=
      Graph.exists_pairings_perm ctx.generation ctx'.generation hn hn'
    -- a token that is meant on one side is meant on the other, by the pair it stands in
    have htokens : ∀ p ∈ n.timers.zip n'.timers, p.1.key = key → p.2.key = key →
        (p.2.token = token' ↔ p.1.token = token) := by
      intro p hp hkey hkey'
      have hpair := hsame _ (hperm.symm.subset (List.mem_append_left _ (List.mem_map_of_mem hp)))
      simpa only [Prod.map, ArmedTimer.arming, hkey, hkey', Fire.mk.injEq, true_and] using hpair
    rcases htwin.keys.takeFired?_cases htokens with ⟨hnone, hnone'⟩ |
      ⟨t, t', rest, rest', htaken, htaken', hrest, ⟨hkey, htoken⟩, ⟨hkey', htoken'⟩, hzip⟩
    · rw [hnone, hnone']
      refine .inl ⟨rfl, rfl, fun j m hj hm => ?_⟩
      cases hj
      cases hn.symm.trans hm
      exact hnone
    rw [htaken, htaken']
    -- what is left to be coupled is the rest of this node and the other nodes
    refine .inr ⟨t.ticket, t'.ticket,
      rest.pairings ctx.generation ctx'.generation r.graph.id n.id rest' ++ others, ?_, ?_⟩
    · have hpairs := (hperm.trans ((hzip.map _).append_right others))
      rw [List.map_cons, List.cons_append] at hpairs
      have hfirst : (t, t').map (ArmedTimer.arming ctx.generation r.graph.id n.id)
          (ArmedTimer.arming ctx'.generation r.graph.id n.id) =
          (⟨⟨ctx.generation, r.graph.id, n.id, key, token⟩, t.ticket⟩,
            ⟨⟨ctx'.generation, r.graph.id, n.id, key, token'⟩, t'.ticket⟩) := by
        simp only [Prod.map, ArmedTimer.arming, hkey, hkey', htoken, htoken']
      rwa [hfirst] at hpairs
    · intro Q hQ hworlds
      have hfired : Node.Twin { n with timers := rest } { n' with timers := rest' } := by
        refine ⟨?_, hrest⟩
        rw [htwin.eq]
      have hstages : Stages ctx ctx' r.graph.id Q
          ⟨r.graph.replace i { n with timers := rest }, w⟩
          ⟨r'.graph.replace i { n' with timers := rest' }, w'⟩ :=
        ⟨rfl, h.replace i hfired, hQ.perm (hreplaced _ _).symm hworlds⟩
      have hrunners : Runners ctx ctx' r.graph.id Q
          ({ r with graph := r.graph.replace i { n with timers := rest } }, w)
          ({ r' with graph := r'.graph.replace i { n' with timers := rest' } }, w') :=
        ⟨hstages, hsteps, htruncated⟩
      dsimp only
      -- a disabled node gives its timer up and is not evaluated
      by_cases henabled : n.enabled = true
      · rw [if_pos henabled, if_pos (htwin.enabled_eq.trans henabled)]
        exact hQ.runnerEvaluate hrunners i (.timer key)
      · have henabled' : ¬ n'.enabled = true := by rwa [htwin.enabled_eq]
        rw [if_neg henabled, if_neg henabled']
        exact hrunners

/-- Two timers of twins that are paired off fire: what they set going goes on alike from worlds that
are coupled without them. -/
theorem onTimer_of_pair {Q : World H → World K → List (Arming × Arming) → Prop}
    (hQ : Coupling ctx ctx' r.graph.id Q) (h : r.graph.Twin r'.graph) (hs : r.graph.Sound)
    (hsteps : r'.lastSteps = r.lastSteps) (htruncated : r'.truncatedPasses = r.truncatedPasses)
    {p : Arming × Arming} {rest : List (Arming × Arming)}
    (hperm : (r.graph.pairings ctx.generation ctx'.generation r'.graph).Perm (p :: rest))
    {w : World H} {w' : World K} (hworlds : Q w w' rest) :
    Runners ctx ctx' r.graph.id Q (r.onTimer ctx w p.1.fire) (r'.onTimer ctx' w' p.2.fire) := by
  have hmem := hperm.symm.subset List.mem_cons_self
  obtain ⟨hfire, hfire'⟩ := h.fire_eq hmem
  -- on both sides, the fire means that timer and no other one
  have hsame : ∀ q ∈ r.graph.pairings ctx.generation ctx'.generation r'.graph,
      (q.2.fire = ⟨ctx'.generation, r.graph.id, p.1.fire.node, p.1.fire.key, p.2.fire.token⟩ ↔
        q.1.fire = ⟨ctx.generation, r.graph.id, p.1.fire.node, p.1.fire.key, p.1.fire.token⟩) := by
    intro q hq
    rw [← hfire, ← hfire']
    have hq' := (h.fire_eq hq).2
    constructor
    · intro heq
      rw [heq, hfire'] at hq'
      obtain ⟨-, -, hnode, hkey, -⟩ := Fire.mk.inj hq'
      rw [h.eq_of_mem_pairings hs hq hmem hnode.symm hkey.symm]
    · intro heq
      rw [h.eq_of_mem_pairings hs hq hmem (congrArg Fire.node heq) (congrArg Fire.key heq)]
  rcases onTimer w w' h hsteps htruncated hsame with
    ⟨-, -, hrefused⟩ | ⟨_, _, others, hothers, htaken⟩
  · exact (Graph.not_refused_of_mem_pairings hs hmem hrefused).elim
  have hfirst := hothers.symm.subset List.mem_cons_self
  rw [h.eq_of_mem_pairings hs hfirst hmem rfl rfl] at hothers
  have hdone := htaken hQ (hQ.perm (hperm.symm.trans hothers).cons_inv hworlds)
  rwa [← hfire, ← hfire'] at hdone

end Runners

end Coupling

end SignalGraph
