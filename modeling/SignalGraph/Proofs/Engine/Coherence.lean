import SignalGraph.Host.Memory
import SignalGraph.Proofs.Engine.Run

/-!
# Coherence of wires

An input all of whose links come from one output holds the value of that output, unless a pass has
been cut short (`Engine.Reachable.wire_same`). During a pass this fails for links that are still to
be followed. `Frontier.Covers` says which: those of a port that waits, and those of the port whose
turn it is to targets that are still due. The value that is being passed on may itself be outdated,
but then its port waits again, because it has changed meanwhile.
-/

namespace SignalGraph

/-! ### Coherent graphs -/

namespace Graph

/-- The link is there, and all links to its target come from its source. -/
def Sole (g : Graph) (l : Link) : Prop :=
  l ∈ g.links ∧ ∀ l' ∈ g.links, l'.target = l.target → l'.source = l.source

instance (g : Graph) (l : Link) : Decidable (g.Sole l) :=
  inferInstanceAs (Decidable (_ ∧ ∀ l' ∈ g.links, _))

/-- Every input holds what its links say. -/
structure Coherent (g : Graph) : Prop where
  wire : ∀ l, g.Sole l → (g.inputAt l.target).same (g.outputAt l.source) = true
  unlinked : ∀ p, (∀ l ∈ g.links, l.target ≠ p) → g.inputAt p = .null

theorem mem_targets {g : Graph} {source target : PortRef} :
    target ∈ g.targets source ↔ ⟨source, target⟩ ∈ g.links := by
  rw [targets, List.mem_filterMap]
  constructor
  · rintro ⟨l, hl, heq⟩
    rw [Option.ite_none_right_eq_some] at heq
    obtain ⟨rfl, heq⟩ := heq
    cases heq
    exact hl
  · exact fun hl => ⟨_, hl, if_pos rfl⟩

theorem sole_congr {g g' : Graph} (hlinks : g'.links = g.links) {l : Link} :
    g'.Sole l ↔ g.Sole l := by
  rw [Sole, Sole, hlinks]

/-- All ports of a graph that has just been built are `null`. -/
theorem Fresh.coherent {g : Graph} (h : g.Fresh) : g.Coherent := by
  have hinput : ∀ p, g.inputAt p = .null := by
    intro p
    unfold inputAt
    split
    · next n hn => exact (h.nodes _ n hn).inputAt_eq p.port
    · rfl
  have houtput : ∀ p, g.outputAt p = .null := by
    intro p
    unfold outputAt
    split
    · next n hn => exact (h.nodes _ n hn).outputAt_eq p.port
    · rfl
  refine ⟨fun l _ => ?_, fun p _ => hinput p⟩
  rw [hinput, houtput]
  rfl

end Graph

/-! ### The links still to be followed -/

namespace Frontier

/-- Where a graph is not coherent, a link is still to be followed. The targets that are due are
those of the port `turn`. -/
structure Covers (f : Frontier) (turn : PortRef) (g : Graph) : Prop where
  due : ∀ t ∈ f.targets, ⟨turn, t⟩ ∈ g.links
  /-- The value that is being passed on is that of the port, or the port waits again. -/
  value : f.targets ≠ [] → f.value.same (g.outputAt turn) = true ∨ turn ∈ f.waiting
  wire : ∀ l, g.Sole l → (g.inputAt l.target).same (g.outputAt l.source) = true ∨
    l.source ∈ f.waiting ∨ l.source = turn ∧ l.target ∈ f.targets
  unlinked : ∀ p, (∀ l ∈ g.links, l.target ≠ p) → g.inputAt p = .null

variable {f f' : Frontier} {g g' : Graph} {turn : PortRef}

/-- Outputs of a coherent graph have changed, and all that have are waiting. -/
theorem covers_ofSources {changed : List PortRef} (h : g.Coherent) (hlinks : g'.links = g.links)
    (hinput : ∀ p, g'.inputAt p = g.inputAt p)
    (houtput : ∀ p, (g'.outputAt p).same (g.outputAt p) = true ∨ p ∈ changed) :
    (ofSources changed).Covers turn g' where
  due := fun _ ht => nomatch ht
  value := fun hne => (hne rfl).elim
  wire := by
    intro l hl
    rw [Graph.sole_congr hlinks] at hl
    rcases houtput l.source with hsame | hchanged
    · left
      rw [hinput]
      exact Value.same_trans (h.wire l hl) (Value.same_symm hsame)
    · right; left
      simpa [ofSources, waiting] using hchanged
  unlinked := by
    rw [hlinks]
    intro p hp
    rw [hinput]
    exact h.unlinked p hp

/-- What is due next is covered with its target. -/
theorem Covers.next {value : Value} {target : PortRef} (h : f.Covers turn g)
    (hdue : f.Due g value target f') : f'.value = value ∧
      ∃ turn', Covers { f' with targets := target :: f'.targets } turn' g := by
  cases hdue with
  | going htargets =>
    refine ⟨rfl, turn, ?_⟩
    dsimp only
    rw [← htargets]
    exact h
  | @turn source _ skipped _ hnone hwaiting hskipped htargets hvalue =>
    refine ⟨rfl, source, ?_⟩
    constructor
    case due =>
      intro t ht
      rw [← Graph.mem_targets, htargets]
      exact ht
    case value =>
      intro _
      left
      dsimp only
      rw [hvalue]
      exact Value.same_refl _
    case wire =>
      intro l hl
      -- ports that have been skipped have no targets, and those of `source` are due from now on
      have hmem : l.target ∈ g.targets l.source := Graph.mem_targets.2 hl.1
      rcases h.wire l hl with hsame | hwaits | ⟨-, hmem'⟩
      · exact .inl hsame
      · rw [hwaiting] at hwaits
        rcases List.mem_append.1 hwaits with hskip | hwaits
        · rw [hskipped _ hskip] at hmem
          cases hmem
        · rcases List.mem_cons.1 hwaits with heq | hwaits
          · rw [heq, htargets] at hmem
            exact .inr (.inr ⟨heq, hmem⟩)
          · exact .inr (.inl hwaits)
      · rw [hnone] at hmem'
        cases hmem'
    case unlinked => exact h.unlinked

/-- When nothing is due, the graph is coherent. -/
theorem Covers.coherent (h : f.Covers turn g) (hnone : f.next? g = none) : g.Coherent := by
  obtain ⟨htargets, hwaiting⟩ := targets_of_next?_eq_none hnone
  refine ⟨?_, h.unlinked⟩
  intro l hl
  rcases h.wire l hl with hsame | hwaits | ⟨-, hmem⟩
  · exact hsame
  · have hmem : l.target ∈ g.targets l.source := Graph.mem_targets.2 hl.1
    rw [hwaiting _ hwaits] at hmem
    cases hmem
  · rw [htargets] at hmem
    cases hmem

variable {H : Type} [Host H] {ctx : LoadContext}

/-- Following a link leaves everything covered. -/
theorem Covers.deliver {s : Stage H} {o : Stage H × List PortRef} {target : PortRef}
    (hs : s.graph.Sound) (h : Covers { f with targets := target :: f.targets } turn s.graph)
    (ho : s.DeliverOutcome ctx f.value target o) : (f.enqueue o.2).Covers turn o.1.graph := by
  have hlinks := ho.along.links_eq
  have hlink : ⟨turn, target⟩ ∈ s.graph.links := h.due target List.mem_cons_self
  constructor
  case due =>
    rw [hlinks]
    exact fun t ht => h.due t (List.mem_cons_of_mem _ ht)
  case value =>
    intro _
    rw [waiting_enqueue]
    -- the value is outdated only if the evaluation has changed the port, which then waits again
    rcases h.value (List.cons_ne_nil _ _) with hsame | hwaits
    · rcases ho.outputAt_same hs turn with hkept | hchanged
      · exact .inl (Value.same_trans hsame (Value.same_symm hkept))
      · exact .inr (List.mem_append_right _ hchanged)
    · exact .inr (List.mem_append_left _ hwaits)
  case wire =>
    intro l hl
    rw [Graph.sole_congr hlinks] at hl
    rw [waiting_enqueue]
    rcases ho.outputAt_same hs l.source with hkept | hchanged
    swap
    · exact .inr (.inl (List.mem_append_right _ hchanged))
    by_cases htarget : l.target = target
    · -- the only output that feeds the target is the one whose value it has just got
      obtain rfl : turn = l.source := hl.2 _ hlink htarget.symm
      rcases h.value (List.cons_ne_nil _ _) with hsame | hwaits
      · left
        have hstored := ho.inputAt_target (hs.target _ hlink)
        rw [htarget]
        exact Value.same_trans hstored (Value.same_trans hsame (Value.same_symm hkept))
      · exact .inr (.inl (List.mem_append_left _ hwaits))
    · rw [ho.inputAt_ne htarget]
      rcases h.wire l hl with hsame | hwaits | ⟨hturn, hmem⟩
      · exact .inl (Value.same_trans hsame (Value.same_symm hkept))
      · exact .inr (.inl (List.mem_append_left _ hwaits))
      · exact .inr (.inr ⟨hturn, (List.mem_cons.1 hmem).resolve_left htarget⟩)
  case unlinked =>
    rw [hlinks]
    intro p hp
    rw [ho.inputAt_ne fun heq => hp _ hlink heq.symm]
    exact h.unlinked p hp

end Frontier

/-! ### Running graphs -/

namespace Runner

variable {H : Type} [Host H] {ctx : LoadContext} {r : Runner} {w : World H} {i : Nat}
  {o : Runner × World H}

/-- The graph is sound, and coherent unless a pass has been cut short. -/
structure Coherent (r : Runner) : Prop where
  sound : r.graph.Sound
  coherent : r.truncatedPasses = 0 → r.graph.Coherent

/-- A pass that is not cut short makes a graph coherent. -/
theorem coherent_pass {s : Stage H} {changed : List PortRef} (hs : s.graph.Sound)
    (h : r.truncatedPasses = 0 → (Frontier.ofSources changed).Covers ⟨0, 0⟩ s.graph) :
    (r.pass ctx s changed).1.Coherent := by
  refine ⟨(along_pass r s changed).step.sound hs, fun hzero => ?_⟩
  -- if no pass has been cut short by the end, none had been at the start
  obtain ⟨_, _, hbefore⟩ := pass_induct ctx (I := fun _ (_ : Stage H) => True)
    (fun _ _ => trivial) r changed (s := s) trivial
  have hstep : Stage.StepKeeps ctx fun f (t : Stage H) =>
      t.graph.Sound ∧ ∃ turn, f.Covers turn t.graph := by
    rintro f t value target f' hdue ⟨hsound, turn, hcovers⟩
    obtain ⟨rfl, turn', hnext⟩ := hcovers.next hdue
    have ho := Stage.deliver_outcome ctx t f'.value target
    exact ⟨ho.along.step.sound hsound, turn', hnext.deliver hsound ho⟩
  obtain ⟨f, ⟨-, turn, hcovers⟩, hend⟩ := pass_induct ctx hstep r changed
    ⟨hs, _, h (hbefore hzero).1⟩
  exact hcovers.coherent (hend hzero).2

theorem Coherent.evaluate (h : r.Coherent) (trigger : Trigger)
    (henabled : ∀ n, r.graph.nodes[i]? = some n → n.enabled = true) :
    (r.evaluate ctx w i trigger).1.Coherent := by
  have ho := Stage.evaluate_outcome ctx ⟨r.graph, w⟩ i trigger
  have halong := ho.along henabled
  refine coherent_pass (halong.step.sound h.sound) fun hzero => ?_
  exact Frontier.covers_ofSources (h.coherent hzero) halong.links_eq ho.inputAt_eq
    (ho.outputAt_same h.sound)

theorem InjectOutcome.coherent {value : Value} (ho : r.InjectOutcome ctx w i value o)
    (h : r.Coherent) : o.1.Coherent := by
  cases ho with
  | ignored => exact h
  | unchanged => exact ⟨h.sound, h.coherent⟩
  | @shown n b hn henabled hbridge =>
    have halong : r.graph.Along Node.Step (r.graph.replace i (n.showing (b.cast.apply value))) :=
      .replace hn (.inject henabled hbridge)
    refine coherent_pass (halong.sound h.sound) fun hzero => ?_
    -- the bridge shows the value at its first output, and nothing else has changed
    refine Frontier.covers_ofSources (h.coherent hzero) halong.links_eq
      (Graph.inputAt_replace hn rfl) fun p => ?_
    by_cases hp : p = ⟨i, 0⟩
    · exact .inr (List.mem_singleton.2 hp)
    · left
      rw [Graph.outputAt_showing hn hp]
      exact Value.same_refl _

theorem PrimeOutcome.coherent (ho : r.PrimeOutcome ctx w i o) (h : r.Coherent) :
    o.1.Coherent := by
  cases ho with
  | skipped => exact h
  | evaluated hn henabled =>
    refine h.evaluate _ fun m hm => ?_
    cases hn.symm.trans hm
    exact henabled

theorem Coherent.release {fire : Fire} {n : Node} {timers : ArmedTimers} (h : r.Coherent)
    (hn : r.graph.nodes[i]? = some n)
    (htimers : n.timers.takeFired? fire.key fire.token = some timers) :
    (r.release i n timers).Coherent := by
  refine ⟨(along_release hn htimers).step.sound h.sound, fun hzero => ?_⟩
  have hg := h.coherent hzero
  have hinput := Graph.inputAt_replace (m := { n with timers := timers }) hn rfl
  have houtput := Graph.outputAt_replace (m := { n with timers := timers }) hn rfl
  refine ⟨fun l hl => ?_, fun p hp => (hinput p).trans (hg.unlinked p hp)⟩
  show ((r.graph.replace i { n with timers := timers }).inputAt l.target).same
    ((r.graph.replace i { n with timers := timers }).outputAt l.source) = true
  rw [hinput, houtput]
  exact hg.wire l hl

theorem TimerOutcome.coherent {fire : Fire} (ho : r.TimerOutcome ctx w fire o)
    (h : r.Coherent) : o.1.Coherent := by
  cases ho with
  | refused => exact h
  | dropped _ hn htimers => exact h.release hn htimers
  | evaluated _ hn htimers henabled =>
    refine (h.release hn htimers).evaluate _ fun m hm => ?_
    rw [release, Graph.getElem?_replace_self hn] at hm
    cases hm
    exact henabled

theorem kept_coherent (H : Type) [Host H] : Kept H Coherent where
  inject ctx _ w i value h := (inject_outcome ctx _ w i value).coherent h
  primeNode ctx _ w i h := (primeNode_outcome ctx _ w i).coherent h
  onTimer ctx _ w fire h := (onTimer_outcome ctx _ w fire).coherent h

end Runner

/-! ### Runs -/

namespace Engine

variable {H : Type} [Host H] {e : Engine H}

theorem coherent_install (e : Engine H) (c : Configuration) :
    (e.install c).2.AllRunners fun _ r => r.Coherent := by
  refine .install (fun _ => Runner.kept_coherent H) fun i g hg => ?_
  have hfresh := (fresh_of_mem_buildGraphs (List.mem_of_getElem? hg)).1
  exact ⟨hfresh.sound, fun _ => hfresh.coherent⟩

theorem Reachable.coherent (h : Reachable e) : e.AllRunners fun _ r => r.Coherent := by
  induction h with
  | fresh h => exact fun i r hr => by simp [h.runners] at hr
  | @act e a _ ih =>
    by_cases ha : ∃ c, a = .install c
    · obtain ⟨c, rfl⟩ := ha
      exact coherent_install e c
    · exact ih.act (fun _ => Runner.kept_coherent H) fun c h => ha ⟨c, h⟩

/-- In every state of every run, while no pass of a running graph has been cut short since the load,
an input all of whose links come from one output holds the same value as that output. -/
theorem Reachable.wire_same (h : Reachable e) {i : Nat} {r : Runner} (hr : e.runners[i]? = some r)
    (hzero : r.truncatedPasses = 0) {l : Link} (hl : r.graph.Sole l) :
    (r.graph.inputAt l.target).same (r.graph.outputAt l.source) = true :=
  ((h.coherent i r hr).coherent hzero).wire l hl

/-- The constant and its delay, after they have been loaded. -/
def delayedRunner : Runner :=
  (((new default { start := default } : Engine MemoryHost).install delayed).2.runners[0]?).getD
    default

/-- The delay has received the constant. -/
theorem wire_same_delayed :
    (delayedRunner.graph.inputAt ⟨1, 0⟩).same (delayedRunner.graph.outputAt ⟨0, 0⟩) = true ∧
      (delayedRunner.graph.inputAt ⟨1, 0⟩).same (.bool true) = true := by
  have hreachable : Reachable
      ((new default { start := default } : Engine MemoryHost).act (.install delayed)) :=
    (Reachable.fresh (fresh_new _ rfl)).act _
  have hr : ((new default { start := default } : Engine MemoryHost).install
      delayed).2.runners[0]? = some delayedRunner :=
    (Option.getD_of_ne_none (by decide +kernel) default).symm
  refine ⟨hreachable.wire_same (l := ⟨⟨0, 0⟩, ⟨1, 0⟩⟩) hr ?_ ?_, ?_⟩
  · decide +kernel
  · decide +kernel
  · decide +kernel

end Engine

end SignalGraph
