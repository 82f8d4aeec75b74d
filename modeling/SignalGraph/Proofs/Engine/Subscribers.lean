import Mathlib.Data.List.Basic
import SignalGraph.Engine.Basic
import SignalGraph.Proofs.Dictionary
import SignalGraph.Proofs.Node.Bridge

/-!
# The subscriber table

The table that a load makes lists, for each signal, exactly the enabled input bridges that read it
(`Engine.mem_receivers`), and each signal has one entry (`Engine.eq_receivers_of_mem`).
-/

namespace SignalGraph

namespace Dictionary

/-- An element that is added to the list under a key is one more among all elements. -/
theorem flatMap_insert_perm {β : Type} {d : Dictionary (List β)} (key : String) (hd : Sorted d)
    (b : β) :
    ((insert key ((find? key d).getD [] ++ [b]) d).flatMap Prod.snd).Perm
      (b :: d.flatMap Prod.snd) := by
  induction d with
  | nil => exact .refl _
  | cons entry rest ih =>
    obtain ⟨hfirst, hrest⟩ := List.pairwise_cons.1 hd
    obtain ⟨k, l⟩ := entry
    unfold insert find?
    by_cases hkey : k = key
    · subst hkey
      rw [if_neg (String.lt_irrefl k), if_pos rfl, if_pos rfl, List.flatMap_cons, List.flatMap_cons,
        Option.getD_some, List.append_assoc]
      exact List.perm_middle
    · rw [if_neg hkey, if_neg (Ne.symm hkey)]
      split
      · next hlt =>
        -- all keys are greater, so the key is new
        have hnone : find? key rest = none := by
          rw [← Option.not_isSome_iff_eq_none, ← mem_keys_iff]
          intro hmem
          obtain ⟨entry, hentry, rfl⟩ := List.mem_map.1 hmem
          exact String.lt_irrefl _ (String.lt_trans hlt (hfirst entry hentry))
        rw [hnone]
        exact .refl _
      · rw [List.flatMap_cons, List.flatMap_cons]
        exact ((ih hrest).append_left l).trans List.perm_middle

end Dictionary

/-! ### Signals of nodes -/

theorem Graph.mem_inputBridges {g : Graph} {i : Nat} {signal : String} :
    (i, signal) ∈ g.inputBridges ↔ g.signal? i = some signal := by
  have hentry : ∀ (n : Node) (j : Nat),
      (if n.enabled then n.behavior.inputBridge?.map fun b => (j, b.signal) else none) =
        n.signal?.map fun s => (j, s) := by
    intro n j
    unfold Node.signal?
    split
    · rw [Option.map_map]
      rfl
    · rfl
  rw [inputBridges, List.mem_filterMap, signal?, Option.bind_eq_some_iff]
  constructor
  · rintro ⟨⟨n, j⟩, hmem, heq⟩
    have hn : g.nodes[j]? = some n := by
      rw [← Array.getElem?_toList]
      exact List.mk_mem_zipIdx_iff_getElem?.1 hmem
    obtain ⟨s, hs, heq⟩ := Option.map_eq_some_iff.1 ((hentry n j).symm.trans heq)
    cases heq
    exact ⟨n, hn, hs⟩
  · rintro ⟨n, hn, hs⟩
    refine ⟨(n, i), List.mk_mem_zipIdx_iff_getElem?.2 ?_, (hentry n i).trans ?_⟩
    · rw [Array.getElem?_toList]
      exact hn
    · rw [hs, Option.map_some]

namespace Engine

/-- The signal that a subscriber shows, if it is an enabled input bridge of one of these graphs. -/
def signalOf? (graphs : List Graph) (s : Subscriber) : Option String :=
  graphs[s.runner]?.bind fun g => g.signal? s.node

/-! ### Receivers -/

/-- The input bridges that receive a signal. -/
def receivers (table : Dictionary (List Subscriber)) (signal : String) : List Subscriber :=
  (table.find? signal).getD []

variable {table : Dictionary (List Subscriber)} {signal signal' : String} {s s' : Subscriber}

theorem mem_receivers_addSubscriber :
    s' ∈ receivers (addSubscriber table signal s) signal' ↔
      s' ∈ receivers table signal' ∨ signal = signal' ∧ s' = s := by
  rw [receivers, addSubscriber, Dictionary.find?_insert]
  by_cases hsignal : signal = signal'
  · subst hsignal
    rw [if_pos rfl, Option.getD_some, List.mem_append, List.mem_singleton]
    exact or_congr_right (and_iff_right rfl).symm
  · rw [if_neg hsignal]
    exact (or_iff_left fun h => hsignal h.1).symm

/-- If every step adds certain receivers, a fold adds those of all its steps. -/
theorem mem_receivers_foldl {α : Type} {add : Dictionary (List Subscriber) → α →
      Dictionary (List Subscriber)} {Adds : α → Prop}
    (hadd : ∀ table a, s ∈ receivers (add table a) signal ↔ s ∈ receivers table signal ∨ Adds a)
    (l : List α) (table : Dictionary (List Subscriber)) :
    s ∈ receivers (l.foldl add table) signal ↔ s ∈ receivers table signal ∨ ∃ a ∈ l, Adds a := by
  induction l generalizing table with
  | nil => simp
  | cons a rest ih =>
    rw [List.foldl_cons, ih, hadd, or_assoc]
    simp only [List.mem_cons, exists_eq_or_imp]

/-- A bridge receives the signal that it shows, and no other bridge does. -/
theorem mem_receivers {graphs : List Graph} :
    s ∈ receivers (subscriberTable graphs) signal ↔ signalOf? graphs s = some signal := by
  -- what the bridges of one graph add
  have hbridges : ∀ (table : Dictionary (List Subscriber)) (entry : Graph × Nat),
      s ∈ receivers (entry.1.inputBridges.foldl
          (fun table bridge => addSubscriber table bridge.2 ⟨entry.2, bridge.1⟩) table) signal ↔
        s ∈ receivers table signal ∨
          entry.2 = s.runner ∧ (s.node, signal) ∈ entry.1.inputBridges := by
    intro table entry
    have hadd : ∀ (table : Dictionary (List Subscriber)) (bridge : Nat × String),
        s ∈ receivers (addSubscriber table bridge.2 ⟨entry.2, bridge.1⟩) signal ↔
          s ∈ receivers table signal ∨ bridge.2 = signal ∧ s = ⟨entry.2, bridge.1⟩ :=
      fun _ _ => mem_receivers_addSubscriber
    rw [mem_receivers_foldl hadd]
    refine or_congr_right ⟨?_, ?_⟩
    · rintro ⟨⟨node, k⟩, hmem, rfl, rfl⟩
      exact ⟨rfl, hmem⟩
    · rintro ⟨hrunner, hmem⟩
      refine ⟨(s.node, signal), hmem, rfl, ?_⟩
      rw [hrunner]
  rw [subscriberTable, mem_receivers_foldl hbridges, signalOf?, Option.bind_eq_some_iff]
  constructor
  · rintro (hnone | ⟨⟨g, i⟩, hmem, rfl, hbridge⟩)
    · cases hnone
    · exact ⟨g, List.mk_mem_zipIdx_iff_getElem?.1 hmem, Graph.mem_inputBridges.1 hbridge⟩
  · rintro ⟨g, hg, hsignal⟩
    exact .inr ⟨(g, s.runner), List.mk_mem_zipIdx_iff_getElem?.2 hg, rfl,
      Graph.mem_inputBridges.2 hsignal⟩

theorem sorted_subscriberTable (graphs : List Graph) : (subscriberTable graphs).Sorted := by
  unfold subscriberTable
  refine List.foldlRecOn _ _ List.Pairwise.nil fun table htable entry _ => ?_
  refine List.foldlRecOn _ _ htable fun table htable bridge _ => ?_
  exact Dictionary.sorted_insert htable

/-- Every entry of the table lists the receivers of its signal. -/
theorem eq_receivers_of_mem {graphs : List Graph} {entry : String × List Subscriber}
    (h : entry ∈ subscriberTable graphs) :
    entry.2 = receivers (subscriberTable graphs) entry.1 := by
  have hfind := Dictionary.find?_eq_some_of_mem (sorted_subscriberTable graphs) h
  rw [receivers, hfind, Option.getD_some]

/-- The signals of the table are those that bridges show. -/
theorem mem_keys_subscriberTable {graphs : List Graph} :
    signal ∈ (subscriberTable graphs).keys ↔ ∃ s, signalOf? graphs s = some signal := by
  constructor
  · intro hmem
    -- nothing is listed without a bridge
    let Filled (table : Dictionary (List Subscriber)) : Prop := ∀ entry ∈ table, entry.2 ≠ []
    have hnonempty : Filled (subscriberTable graphs) := by
      unfold subscriberTable
      refine List.foldlRecOn (motive := Filled) _ _ (fun _ hentry => nomatch hentry)
        fun table htable added _ => ?_
      refine List.foldlRecOn (motive := Filled) _ _ htable
        fun table htable bridge _ entry hentry => ?_
      rcases Dictionary.mem_insert hentry with rfl | hentry
      · exact List.append_ne_nil_of_right_ne_nil _ (List.cons_ne_nil _ _)
      · exact htable entry hentry
    obtain ⟨entry, hentry, rfl⟩ := List.mem_map.1 hmem
    obtain ⟨s, hs⟩ := List.exists_mem_of_ne_nil _ (hnonempty entry hentry)
    rw [eq_receivers_of_mem hentry] at hs
    exact ⟨s, mem_receivers.1 hs⟩
  · rintro ⟨s, hs⟩
    have hmem := mem_receivers.2 hs
    rw [Dictionary.mem_keys_iff]
    by_contra hnone
    rw [receivers, Option.not_isSome_iff_eq_none.1 hnone] at hmem
    cases hmem

/-- All bridges, in the order in which the table is made. -/
def allSubscribers (graphs : List Graph) : List Subscriber :=
  graphs.zipIdx.flatMap fun (g, i) => g.inputBridges.map fun (node, _) => ⟨i, node⟩

theorem subscribers_perm (graphs : List Graph) :
    ((subscriberTable graphs).flatMap Prod.snd).Perm (allSubscribers graphs) := by
  -- what the bridges of one graph add
  have hbridges : ∀ (bridges : List (Nat × String)) (i : Nat)
      (table : Dictionary (List Subscriber)),
      table.Sorted →
      (bridges.foldl (fun table bridge => addSubscriber table bridge.2 ⟨i, bridge.1⟩)
        table).Sorted ∧
      ((bridges.foldl (fun table bridge => addSubscriber table bridge.2 ⟨i, bridge.1⟩)
        table).flatMap Prod.snd).Perm
        (table.flatMap Prod.snd ++ bridges.map fun bridge => ⟨i, bridge.1⟩) := by
    intro bridges i
    induction bridges with
    | nil => exact fun table htable => ⟨htable, by simp⟩
    | cons bridge rest ih =>
      intro table htable
      obtain ⟨hsorted, hperm⟩ := ih (addSubscriber table bridge.2 ⟨i, bridge.1⟩)
        (Dictionary.sorted_insert htable)
      refine ⟨hsorted, hperm.trans ?_⟩
      have hadded := Dictionary.flatMap_insert_perm bridge.2 htable
        (⟨i, bridge.1⟩ : Subscriber)
      exact (hadded.append_right _).trans List.perm_middle.symm
  have hgraphs : ∀ (l : List (Graph × Nat)) (table : Dictionary (List Subscriber)), table.Sorted →
      ((l.foldl (fun table entry => entry.1.inputBridges.foldl
        (fun table bridge => addSubscriber table bridge.2 ⟨entry.2, bridge.1⟩) table)
          table).flatMap Prod.snd).Perm
        (table.flatMap Prod.snd ++ l.flatMap fun entry =>
          entry.1.inputBridges.map fun bridge => ⟨entry.2, bridge.1⟩) := by
    intro l
    induction l with
    | nil => exact fun table _ => by simp
    | cons entry rest ih =>
      intro table htable
      obtain ⟨hsorted, hperm⟩ := hbridges entry.1.inputBridges entry.2 table htable
      refine (ih _ hsorted).trans ?_
      rw [List.flatMap_cons, ← List.append_assoc]
      exact hperm.append_right _
  exact hgraphs graphs.zipIdx [] List.Pairwise.nil

/-- Every bridge is listed once. -/
theorem nodup_subscribers (graphs : List Graph) :
    ((subscriberTable graphs).flatMap Prod.snd).Nodup := by
  rw [(subscribers_perm graphs).nodup_iff]
  have hnumbers {α : Type} (l : List α) : l.zipIdx.Pairwise fun a b => a.2 ≠ b.2 :=
    List.pairwise_map.1 (List.nodup_zipIdx_map_snd l)
  refine List.nodup_flatMap.2 ⟨?_, ?_⟩
  · -- the bridges of one graph are told apart by the numbers of their nodes
    rintro ⟨g, i⟩ _
    have hnumber : ∀ {n : Node} {j : Nat} {b : Nat × String},
        (if n.enabled then n.behavior.inputBridge?.map fun b => (j, b.signal) else none) = some b →
          b.1 = j := by
      intro n j b hb
      rw [Option.ite_none_right_eq_some] at hb
      obtain ⟨_, -, rfl⟩ := Option.map_eq_some_iff.1 hb.2
      rfl
    refine List.pairwise_map.2 (List.pairwise_filterMap.2 ((hnumbers g.nodes.toList).imp ?_))
    rintro ⟨n, j⟩ ⟨n', j'⟩ hne b hb b' hb' heq
    rw [← hnumber hb, ← hnumber hb'] at hne
    exact hne (congrArg Subscriber.node heq)
  · refine (hnumbers graphs).imp ?_
    rintro ⟨g, i⟩ ⟨g', i'⟩ hne s hs hs'
    obtain ⟨_, -, rfl⟩ := List.mem_map.1 hs
    obtain ⟨_, -, heq⟩ := List.mem_map.1 hs'
    exact hne (congrArg Subscriber.runner heq).symm

end Engine

end SignalGraph
