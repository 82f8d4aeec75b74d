import SignalGraph.Proofs.Engine.Routing
import SignalGraph.Proofs.Engine.Sparing

/-!
# The share of one graph

A graph of a configuration stands apart (`Configuration.Apart`) if no other enabled one has its id
or writes to a signal that it reads. It is one of the graphs that run
(`Configuration.Apart.exists_built`), and its share of the subscriber table is the table of the
graph alone (`Engine.ownTable_subscriberTable`).
-/

namespace SignalGraph

/-! ### Choosing entries of a dictionary -/

namespace Dictionary

variable {α β : Type} {d : Dictionary α} {key : String} {value : α} {f : α → Option β} {b : β}

/-- The entries with a value under `f`, in the same order. -/
def choose (f : α → Option β) (d : Dictionary α) : Dictionary β :=
  d.filterMap fun entry => (f entry.2).map (Prod.mk entry.1)

theorem exists_of_mem_choose {entry : String × β} (h : entry ∈ choose f d) :
    ∃ value, (entry.1, value) ∈ d ∧ f value = some entry.2 := by
  obtain ⟨⟨key, value⟩, hmem, heq⟩ := List.mem_filterMap.1 h
  obtain ⟨b, hb, rfl⟩ := Option.map_eq_some_iff.1 heq
  exact ⟨value, hmem, hb⟩

theorem sorted_choose (h : d.Sorted) : (choose f d).Sorted := by
  refine List.pairwise_filterMap.2 (h.imp ?_)
  rintro ⟨key, value⟩ ⟨key', value'⟩ hlt entry hentry entry' hentry'
  obtain ⟨b, -, rfl⟩ := Option.map_eq_some_iff.1 hentry
  obtain ⟨b', -, rfl⟩ := Option.map_eq_some_iff.1 hentry'
  exact hlt

theorem find?_choose (h : d.Sorted) (f : α → Option β) (key : String) :
    find? key (choose f d) = (find? key d).bind f := by
  ext b
  rw [Option.bind_eq_some_iff]
  constructor
  · intro hb
    obtain ⟨value, hmem, hvalue⟩ := exists_of_mem_choose (mem_of_find?_eq_some hb)
    exact ⟨value, find?_eq_some_of_mem h hmem, hvalue⟩
  · rintro ⟨value, hvalue, hb⟩
    refine find?_eq_some_of_mem (sorted_choose h) (List.mem_filterMap.2 ⟨(key, value), ?_, ?_⟩)
    · exact mem_of_find?_eq_some hvalue
    · rw [hb, Option.map_some]

/-- A chosen value is put in its place among the chosen ones. -/
theorem choose_insert (h : d.Sorted) (hvalue : f value = some b) :
    choose f (insert key value d) = insert key b (choose f d) := by
  refine (sorted_choose (sorted_insert h)).eq_of_find? (sorted_insert (sorted_choose h)) fun k => ?_
  rw [find?_choose (sorted_insert h), find?_insert, find?_insert, find?_choose h]
  split
  · exact hvalue
  · rfl

/-- A value that makes no difference to what is chosen. -/
theorem choose_insert_of_eq (h : d.Sorted) (hvalue : f value = (find? key d).bind f) :
    choose f (insert key value d) = choose f d := by
  refine (sorted_choose (sorted_insert h)).eq_of_find? (sorted_choose h) fun k => ?_
  rw [find?_choose (sorted_insert h), find?_insert, find?_choose h]
  split
  · next heq => rw [← heq, ← hvalue, Option.bind_some]
  · rfl

end Dictionary

/-! ### The table of one graph -/

namespace Engine

/-- The bridges of graph number `k` in a list, as those of the only graph. -/
def ownSubscribers (k : Nat) (subscribers : List Subscriber) : List Subscriber :=
  (subscribers.filter fun s => s.runner == k).map fun s => ⟨0, s.node⟩

/-- The table of graph number `k` alone: signals that it does not receive are left out. -/
def ownTable (k : Nat) (table : Dictionary (List Subscriber)) : Dictionary (List Subscriber) :=
  table.choose fun l => if ownSubscribers k l = [] then none else some (ownSubscribers k l)

variable {k : Nat} {table : Dictionary (List Subscriber)}

theorem ownTable_cons (k : Nat) (entry : String × List Subscriber)
    (rest : Dictionary (List Subscriber)) :
    ownTable k (entry :: rest) =
      if ownSubscribers k entry.2 = [] then ownTable k rest
      else (entry.1, ownSubscribers k entry.2) :: ownTable k rest := by
  unfold ownTable Dictionary.choose
  by_cases hown : ownSubscribers k entry.2 = []
  · rw [if_pos hown, List.filterMap_cons_none]
    exact congrArg (Option.map (Prod.mk entry.1)) (if_pos hown)
  · rw [if_neg hown, List.filterMap_cons_some]
    exact congrArg (Option.map (Prod.mk entry.1)) (if_neg hown)

/-- What the graph alone receives is its share of what all receive. -/
theorem receivers_ownTable (h : table.Sorted) (k : Nat) (signal : String) :
    receivers (ownTable k table) signal = ownSubscribers k (receivers table signal) := by
  rw [receivers, ownTable, Dictionary.find?_choose h, receivers]
  cases table.find? signal with
  | none => rfl
  | some l =>
    rw [Option.bind_some]
    split
    · next hnil => exact hnil.symm
    · rfl

theorem sorted_addSubscriber (h : table.Sorted) (signal : String) (s : Subscriber) :
    (addSubscriber table signal s).Sorted :=
  Dictionary.sorted_insert h

/-- A bridge of the graph is added to its table, too. -/
theorem ownTable_addSubscriber (h : table.Sorted) (signal : String) (node : Nat) :
    ownTable k (addSubscriber table signal ⟨k, node⟩) =
      addSubscriber (ownTable k table) signal ⟨0, node⟩ := by
  have hown : ownSubscribers k (receivers table signal ++ [⟨k, node⟩]) =
      ownSubscribers k (receivers table signal) ++ [⟨0, node⟩] := by
    rw [ownSubscribers, List.filter_append, List.map_append]
    simp [ownSubscribers]
  unfold addSubscriber
  show ownTable k (table.insert signal (receivers table signal ++ [⟨k, node⟩])) =
    (ownTable k table).insert signal (receivers (ownTable k table) signal ++ [⟨0, node⟩])
  rw [receivers_ownTable h, ← hown]
  refine Dictionary.choose_insert h (if_neg ?_)
  rw [hown]
  exact List.append_ne_nil_of_right_ne_nil _ (List.cons_ne_nil _ _)

/-- A bridge of another graph makes no difference. -/
theorem ownTable_addSubscriber_of_ne (h : table.Sorted) (signal : String) {s : Subscriber}
    (hs : s.runner ≠ k) : ownTable k (addSubscriber table signal s) = ownTable k table := by
  have hown : ownSubscribers k (receivers table signal ++ [s]) =
      ownSubscribers k (receivers table signal) := by
    rw [ownSubscribers, List.filter_append, List.filter_cons_of_neg (by simpa using hs),
      List.filter_nil, List.append_nil]
    rfl
  refine Dictionary.choose_insert_of_eq h ?_
  show (if ownSubscribers k (receivers table signal ++ [s]) = [] then none
    else some (ownSubscribers k (receivers table signal ++ [s]))) = _
  rw [hown, receivers]
  cases table.find? signal with
  | none => rfl
  | some l => rfl

/-- Adds all bridges of graph number `i`. -/
def addBridges (table : Dictionary (List Subscriber)) (entry : Graph × Nat) :
    Dictionary (List Subscriber) :=
  entry.1.inputBridges.foldl
    (fun table bridge => addSubscriber table bridge.2 ⟨entry.2, bridge.1⟩) table

theorem sorted_addBridges (h : table.Sorted) (entry : Graph × Nat) :
    (addBridges table entry).Sorted :=
  List.foldlRecOn (motive := Dictionary.Sorted) _ _ h fun _ htable _ _ =>
    sorted_addSubscriber htable _ _

theorem ownTable_addBridges (h : table.Sorted) (g : Graph) :
    ownTable k (addBridges table (g, k)) = addBridges (ownTable k table) (g, 0) := by
  unfold addBridges
  induction g.inputBridges generalizing table with
  | nil => rfl
  | cons bridge rest ih =>
    rw [List.foldl_cons, List.foldl_cons, ih (sorted_addSubscriber h _ _),
      ownTable_addSubscriber h]

theorem ownTable_addBridges_of_ne (h : table.Sorted) {entry : Graph × Nat} (hk : entry.2 ≠ k) :
    ownTable k (addBridges table entry) = ownTable k table := by
  unfold addBridges
  induction entry.1.inputBridges generalizing table with
  | nil => rfl
  | cons bridge rest ih =>
    rw [List.foldl_cons, ih (sorted_addSubscriber h _ _), ownTable_addSubscriber_of_ne h _ hk]

theorem ownTable_foldl_of_ne (h : table.Sorted) {l : List (Graph × Nat)}
    (hl : ∀ entry ∈ l, entry.2 ≠ k) : (l.foldl addBridges table).Sorted ∧
      ownTable k (l.foldl addBridges table) = ownTable k table := by
  induction l generalizing table with
  | nil => exact ⟨h, rfl⟩
  | cons entry rest ih =>
    obtain ⟨hsorted, htable⟩ := ih (sorted_addBridges h entry)
      fun entry hentry => hl entry (List.mem_cons_of_mem _ hentry)
    exact ⟨hsorted, htable.trans (ownTable_addBridges_of_ne h (hl entry List.mem_cons_self))⟩

/-- The share of a graph in the table of all graphs is its own table. -/
theorem ownTable_subscriberTable {graphs : List Graph} {g : Graph} (hg : graphs[k]? = some g) :
    ownTable k (subscriberTable graphs) = subscriberTable [g] := by
  obtain ⟨hk, -⟩ := List.getElem?_eq_some_iff.1 hg
  have hbefore : ∀ entry ∈ (graphs.take k).zipIdx, entry.2 ≠ k := by
    intro entry hentry
    have hlt := List.snd_lt_of_mem_zipIdx hentry
    rw [List.length_take_of_le (Nat.le_of_lt hk)] at hlt
    omega
  have hafter : ∀ entry ∈ (graphs.drop (k + 1)).zipIdx (k + 1), entry.2 ≠ k := by
    intro entry hentry
    have hle := List.le_snd_of_mem_zipIdx hentry
    omega
  show ownTable k (graphs.zipIdx.foldl addBridges []) = addBridges [] (g, 0)
  rw [zipIdx_eq_append hg, List.foldl_append, List.foldl_cons]
  have hnil : Dictionary.Sorted ([] : Dictionary (List Subscriber)) := List.Pairwise.nil
  obtain ⟨hsorted, hfirst⟩ := ownTable_foldl_of_ne hnil hbefore
  rw [(ownTable_foldl_of_ne (sorted_addBridges hsorted _) hafter).2, ownTable_addBridges hsorted,
    hfirst]
  rfl

end Engine

/-! ### Graphs that stand apart -/

/-- An enabled input bridge of the graph reads this signal. -/
def Graph.Reads (g : Graph) (signal : String) : Prop :=
  ∃ i, g.signal? i = some signal

theorem Graph.spares_reads_iff {g g' : Graph} {scenes : String → Option String} :
    (∀ i < g.nodes.size, ∀ j < g'.nodes.size,
      g.target? scenes i = none ∨ g.target? scenes i ≠ g'.signal? j) ↔
      g.Spares scenes g'.Reads := by
  constructor
  · rintro h i signal htarget ⟨j, hsignal⟩
    have hi : i < g.nodes.size := by
      obtain ⟨n, hn, -⟩ := Option.bind_eq_some_iff.1 htarget
      exact lt_size_of_getElem? hn
    have hj : j < g'.nodes.size := by
      obtain ⟨n, hn, -⟩ := Option.bind_eq_some_iff.1 hsignal
      exact lt_size_of_getElem? hn
    rcases h i hi j hj with hnone | hne
    · cases htarget.symm.trans hnone
    · exact hne (htarget.trans hsignal.symm)
  · intro h i _ j _
    cases htarget : g.target? scenes i with
    | none => exact .inl rfl
    | some signal => exact .inr fun heq => h i signal htarget ⟨j, heq.symm⟩

instance (g g' : Graph) (scenes : String → Option String) : Decidable (g.Spares scenes g'.Reads) :=
  decidable_of_iff _ Graph.spares_reads_iff

/-- No other enabled graph of the configuration has the id of this one, and none writes to a signal
that this one reads. -/
structure Configuration.Apart (c : Configuration) (scenes : String → Option String)
    (d : GraphDecl) : Prop where
  enabled : d.enabled = true
  exists_split : ∃ before after, c.graphs = before ++ d :: after ∧
    ∀ d' ∈ before ++ after, d'.enabled = true →
      d'.id ≠ d.id ∧ (Graph.build d').1.Spares scenes (Graph.build d).1.Reads

namespace Configuration.Apart

open Engine

variable {c : Configuration} {scenes : String → Option String} {d : GraphDecl}

theorem mem_running (h : c.Apart scenes d) : d ∈ c.running := by
  obtain ⟨before, after, hgraphs, hothers⟩ := h.exists_split
  refine Configuration.mem_running (i := before.length) ?_ ?_
  · rw [hgraphs, List.getElem?_append_right (Nat.le_refl _), Nat.sub_self]
    rfl
  · rw [GraphDecl.leads, hgraphs, List.take_left, h.enabled, Bool.true_and, Bool.not_eq_true',
      List.any_eq_false]
    intro d' hd' hclash
    rw [Bool.and_eq_true, beq_iff_eq] at hclash
    exact (hothers d' (List.mem_append_left _ hd') hclash.1).1 hclash.2

/-- The graph is one of those that run, and the others write to no signal that it reads. -/
theorem exists_built (h : c.Apart scenes d) :
    ∃ k : Nat, (buildGraphs [] c.graphs).1[k]? = some (Graph.build d).1 ∧
      ∀ (i : Nat) g, (buildGraphs [] c.graphs).1[i]? = some g → i ≠ k →
        g.Spares scenes (Graph.build d).1.Reads := by
  obtain ⟨k, hbuilt⟩ := exists_build_of_mem_running h.mem_running
  refine ⟨k, hbuilt, fun i g hg hi => ?_⟩
  have hrunning := hg
  rw [buildGraphs_running, List.getElem?_map] at hrunning
  obtain ⟨d', hd', rfl⟩ := Option.map_eq_some_iff.1 hrunning
  obtain ⟨entry, hentry, rfl⟩ := List.mem_map.1 (List.mem_of_getElem? hd')
  obtain ⟨hmem, hleads⟩ := List.mem_filter.1 hentry
  have henabled : entry.1.enabled = true := (Bool.and_eq_true_iff.1 hleads).1
  -- it is not the graph itself, as ids are used once
  have hne : entry.1 ≠ d := by
    intro heq
    rw [heq] at hg
    exact hi (eq_of_id_eq_buildGraphs hg hbuilt rfl)
  obtain ⟨before, after, hgraphs, hothers⟩ := h.exists_split
  have hgraph : entry.1 ∈ before ++ d :: after := by
    rw [← hgraphs]
    exact List.fst_mem_of_mem_zipIdx hmem
  have hother : entry.1 ∈ before ++ after := by
    rcases List.mem_append.1 hgraph with hbefore | hafter
    · exact List.mem_append_left _ hbefore
    · exact List.mem_append_right _ ((List.mem_cons.1 hafter).resolve_left hne)
  exact (hothers entry.1 hother henabled).2

/-- Alone, the graph is the only one that runs. -/
theorem buildGraphs_alone (h : c.Apart scenes d) :
    (buildGraphs [] [d]).1 = [(Graph.build d).1] := by
  unfold buildGraphs
  rw [h.enabled]
  rfl

end Configuration.Apart

end SignalGraph
