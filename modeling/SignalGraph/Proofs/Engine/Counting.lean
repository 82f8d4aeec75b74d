import SignalGraph.Host.Memory
import SignalGraph.Proofs.Engine.Primed
import SignalGraph.Proofs.Node.Counting

/-!
# Counters in a run

Every rise at an input of a counting node is counted exactly once, in whatever way the values have
reached the node: by a change, by a feedback loop, in a pass that is cut short or while a load
primes the nodes. What the node has counted, and shows, follows from the chronicle alone
(`Engine.counts_exact`).
-/

namespace SignalGraph

open Decimal

namespace Engine

/-- What a node counts and shows when these values have been stored at its inputs. -/
structure CountsExact (n : Node) (eps : List Episode) : Prop where
  /-- The input ports hold what was stored there last. -/
  inputAt_eq : ∀ port < n.ports.inputs.length,
    n.ports.inputAt port = (storedAt port eps).getLast?.getD .null
  impulses_eq : ∀ k, n.behavior = .impulseCounter k → k.count = impulses (rises (stores eps))
  total_eq : ∀ k, n.behavior = .counter k → k.count = k.total (rises (stores eps))
  low_le : ∀ k, n.behavior = .counter k → ∀ l, k.low = some l → l ≤ k.count
  le_high : ∀ k, n.behavior = .counter k → ∀ h, k.high = some h → k.count ≤ h
  /-- The outputs are the count and the count times the factor. -/
  impulses_shown : ∀ k, n.behavior = .impulseCounter k → n.ports.outputs = k.outputs
  total_shown : ∀ k, n.behavior = .counter k → n.ports.outputs = [.num k.count]

variable {H : Type} [Host H]

/-- Whatever happens to the running graphs after a load, the enabled counters among their nodes are
those of the configuration, and they have counted the rises of their inputs since and show what they
have counted. -/
theorem counts_exact (e : Engine H) (c : Configuration) {as : List (Action H)}
    (has : ∀ a ∈ as, ∀ c, a ≠ .install c) {i j : Nat} {r : Runner} {n : Node}
    (hr : (e.run (.install c :: as)).runners[i]? = some r) (hn : r.graph.nodes[j]? = some n)
    (henabled : n.enabled = true) :
    (∃ g n₀, (buildGraphs [] c.graphs).1[i]? = some g ∧ g.nodes[j]? = some n₀ ∧ n.plan = n₀.plan) ∧
      CountsExact n (history i j (e.chronicle (.install c :: as))) := by
  obtain ⟨g, n₀, hg, hn₀, hfresh, hlives⟩ := lives_of_run e c has hr hn
  refine ⟨⟨g, n₀, hg, hn₀, hlives.plan_eq⟩, ?_⟩
  -- the load has primed the node, so it shows something
  have hne := history_ne_nil e c has hr hn henabled
  generalize history i j (e.chronicle (.install c :: as)) = eps at hlives hne ⊢
  have henabled₀ : n₀.enabled = true := hlives.enabled_eq.symm.trans henabled
  have hparameters := hlives.parameters_eq
  have hcounter : ∀ k, n.behavior = .counter k → k.Sound ∧ k.Counts (stores eps) := by
    intro k hk
    rw [hk] at hparameters
    obtain ⟨k₀, hk₀⟩ := Behavior.exists_counter hparameters.symm
    obtain ⟨k', hk', hcounts⟩ := hlives.counter hfresh henabled₀ hk₀
    cases hk.symm.trans hk'
    exact hcounts
  constructor
  case inputAt_eq =>
    intro port hport
    rw [hlives.length_inputs] at hport
    rw [hlives.inputAt_eq hport, hfresh.inputAt_eq]
  case impulses_eq =>
    intro k hk
    rw [hk] at hparameters
    obtain ⟨k₀, hk₀⟩ := Behavior.exists_impulseCounter hparameters.symm
    obtain ⟨k', hk', hcounts⟩ := hlives.impulseCounter hfresh henabled₀ hk₀
    cases hk.symm.trans hk'
    exact hcounts.count
  case total_eq => exact fun k hk => (hcounter k hk).2.count
  case low_le =>
    intro k hk l hl
    obtain ⟨hsound, hcounts⟩ := hcounter k hk
    rw [hcounts.count, ← Counter.bounded_total]
    exact Counter.le_bounded hsound hl _
  case le_high =>
    intro k hk h hh
    obtain ⟨hsound, hcounts⟩ := hcounter k hk
    rw [hcounts.count, ← Counter.bounded_total]
    exact Counter.bounded_le hsound hh _
  case impulses_shown =>
    exact fun k hk => hlives.outputs_of_impulseCounter henabled₀ (hne (by rw [hk]; rfl)) hk
  case total_shown =>
    exact fun k hk => hlives.outputs_of_counter henabled₀ (hne (by rw [hk]; rfl)) hk

/-- A bridge feeds a counter. -/
def counting : Configuration :=
  { graphs := [{
      id := "g"
      nodes := [{ id := "a", typeName := "dp_in", params := [("dp", .str "x")] },
        { id := "b", typeName := "impulse_counter" }]
      links := [⟨⟨"a", "out"⟩, ⟨"b", "in"⟩⟩] }] }

/-- The signal of the bridge becomes true, false and true again. -/
def impulsive : List (Action MemoryHost) :=
  [.post (.change ⟨"x", .bool true⟩), .turn, .post (.change ⟨"x", .bool false⟩), .turn,
    .post (.change ⟨"x", .bool true⟩), .turn]

/-- The counter has counted two impulses. -/
theorem counts_exact_counting : ∃ n k,
    CountsExact n (history 0 1 ((new default { start := default }).chronicle
      (.install counting :: impulsive))) ∧ n.behavior = .impulseCounter k ∧ k.count = 2 := by
  have hrun :
      ((((new default { start := default }).run (.install counting :: impulsive)).runners[0]?
      ).bind fun r => r.graph.nodes[1]?).any (fun n =>
        n.enabled && (match n.behavior with | .impulseCounter k => k.count == 2 | _ => false)) =
      true := by decide +kernel
  obtain ⟨n, hnode, hn⟩ := Option.any_eq_true _ _ |>.1 hrun
  obtain ⟨r, hr, hnode⟩ := Option.bind_eq_some_iff.1 hnode
  rw [Bool.and_eq_true] at hn
  have hactions : ∀ a ∈ impulsive, ∀ c, a ≠ .install c := by
    simp [impulsive]
  have hexact := (counts_exact _ counting hactions hr hnode hn.1).2
  have hcount := hn.2
  split at hcount
  · next k hk => exact ⟨n, k, hexact, hk, by simpa using hcount⟩
  · cases hcount

end Engine

end SignalGraph
