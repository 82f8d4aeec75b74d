import SignalGraph.Host.Memory
import SignalGraph.Proofs.Engine.Chronicle
import SignalGraph.Proofs.Node.Throttle

/-!
# Throttled writes in a run

An output bridge loses no final value and never repeats itself. Whatever arrives, and whether or not
timers fire and writes succeed, the latest value that is not `null` waits or has been written, and
no value is written twice in a row (`Engine.writes_exact`).
-/

namespace SignalGraph

namespace Engine

/-- What an output bridge has made of the values that it has received. -/
structure WritesExact (n : Node) (b : OutputBridge) (eps : List Episode) : Prop where
  /-- A value waits exactly while the timer is armed. -/
  armed_iff : n.timers.isArmed .throttle = true ↔ b.waiting.isSome = true
  waiting_latest : ∀ value, b.waiting = some value →
    ∃ latest, latest? eps = some latest ∧ latest.same value = true
  written_latest : b.waiting = none → ∀ latest, latest? eps = some latest →
    ∃ a, (attempts eps).getLast? = some a ∧ latest.same a.value = true
  waiting_new : ∀ value a, b.waiting = some value → (attempts eps).getLast? = some a →
    value.same a.value = false
  /-- No attempt repeats the one before. -/
  chain : (attempts eps).IsChain fun a a' => a.value.same a'.value = false
  /-- What is written is the latest value at that moment. -/
  current : ∀ before ep, before ++ [ep] <+: eps →
    ∀ a ∈ ep.attempts, latest? (before ++ [ep]) = some a.value

theorem WritesExact.of_throttled {n : Node} {b : OutputBridge} {eps : List Episode}
    (h : b.Throttled n.timers eps) : WritesExact n b eps where
  armed_iff := by
    have harmed := h.armed
    unfold OutputBridge.Armed at harmed
    -- the keys of the timers are known, so arming is read off them
    have hany : n.timers.isArmed .throttle =
        (n.timers.map ArmedTimer.key).any fun key => key == .throttle := by
      rw [List.any_map]
      rfl
    rw [hany, harmed]
    cases b.waiting <;> simp
  waiting_latest value hwaiting := ⟨value, (h.waiting value hwaiting).1, Value.same_refl value⟩
  written_latest := by
    intro hnone latest hlatest
    have hrepeats := h.settled hnone latest hlatest
    rw [OutputBridge.repeats, h.lastWrite_eq] at hrepeats
    cases hlast : (attempts eps).getLast? with
    | none =>
      rw [hlast] at hrepeats
      cases hrepeats
    | some a =>
      rw [hlast] at hrepeats
      exact ⟨a, rfl, Value.same_symm hrepeats⟩
  waiting_new := by
    intro value a hwaiting hlast
    have hnew := (h.waiting value hwaiting).2
    rw [OutputBridge.repeats, h.lastWrite_eq, hlast] at hnew
    rw [Value.same_comm]
    exact hnew
  chain := h.chain
  current := h.current

variable {H : Type} [Host H]

/-- Whatever happens to the running graphs after a load, their enabled output bridges have written
or keep waiting what they were given last, and they have repeated nothing. -/
theorem writes_exact (e : Engine H) (c : Configuration) {as : List (Action H)}
    (has : ∀ a ∈ as, ∀ c, a ≠ .install c) {i j : Nat} {r : Runner} {n : Node} {b : OutputBridge}
    (hr : (e.run (.install c :: as)).runners[i]? = some r) (hn : r.graph.nodes[j]? = some n)
    (henabled : n.enabled = true) (hb : n.behavior = .outputBridge b) :
    WritesExact n b (history i j (e.chronicle (.install c :: as))) := by
  obtain ⟨g, n₀, -, -, hfresh, hlives⟩ := lives_of_run e c has hr hn
  have henabled₀ : n₀.enabled = true := hlives.enabled_eq.symm.trans henabled
  obtain ⟨b₀, hb₀⟩ := hlives.exists_outputBridge hb
  obtain ⟨b', hb', hthrottled⟩ := hlives.throttled hfresh henabled₀ hb₀
  cases hb.symm.trans hb'
  exact .of_throttled hthrottled

/-- A bridge passes its signal on to another one that writes at most once a second. -/
def throttling : Configuration :=
  { graphs := [{
      id := "g"
      nodes := [{ id := "a", typeName := "dp_in", params := [("dp", .str "x")] },
        { id := "b", typeName := "dp_out",
          params := [("dp", .str "y"), ("min_interval_ms", .int 1000)] }]
      links := [⟨⟨"a", "out"⟩, ⟨"b", "in"⟩⟩] }] }

/-- The signal becomes true and false at once. -/
def hurried : List (Action MemoryHost) :=
  [.post (.change ⟨"x", .bool true⟩), .turn, .post (.change ⟨"x", .bool false⟩), .turn]

/-- The second value waits. -/
theorem writes_exact_throttling : ∃ n b,
    WritesExact n b (history 0 1 ((new default { start := default }).chronicle
      (.install throttling :: hurried))) ∧ b.waiting.isSome = true := by
  have hrun :
      ((((new default { start := default }).run (.install throttling :: hurried)).runners[0]?
      ).bind fun r => r.graph.nodes[1]?).any (fun n =>
        n.enabled && (match n.behavior with | .outputBridge b => b.waiting.isSome | _ => false)) =
      true := by decide +kernel
  obtain ⟨n, hnode, hn⟩ := (Option.any_eq_true _ _).1 hrun
  obtain ⟨r, hr, hnode⟩ := Option.bind_eq_some_iff.1 hnode
  rw [Bool.and_eq_true] at hn
  have hactions : ∀ a ∈ hurried, ∀ c, a ≠ .install c := by
    simp [hurried]
  have hwaiting := hn.2
  split at hwaiting
  · next b hb => exact ⟨n, b, writes_exact _ throttling hactions hr hnode hn.1 hb, hwaiting⟩
  · cases hwaiting

end Engine

end SignalGraph
