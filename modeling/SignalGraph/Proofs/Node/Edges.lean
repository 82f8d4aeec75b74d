import SignalGraph.Proofs.Node.Counting

/-!
# Edges in the life of a node

An enabled node is evaluated in each of its episodes, so the edges that its evaluations see lie
between the levels before and after an episode. `lastEdge?` tells at which port and when the last
edge has come since the load, when all levels were false. One more episode either brings an edge,
which is then the last one (`lastEdge?_concat_of_isEdge`), or leaves the last edge as it was
(`lastEdge?_concat_of_not_isEdge`).
-/

namespace SignalGraph

/-- An edge at an input port. -/
structure PortEdge where
  port : Nat
  /-- The virtual time of the evaluation that sees it. -/
  time : Nat
  deriving DecidableEq, Repr

/-- The ports at which an episode brings an edge, given the values stored before it. -/
def Episode.edges (kind : EdgeKind) (ports : List Nat) (stored : List (Nat × Value))
    (ep : Episode) : List PortEdge :=
  let changes (port : Nat) : Bool :=
    kind.isEdge (levels stored port) (levels (stored ++ ep.stored?.toList) port)
  (ports.filter changes).map fun port => ⟨port, ep.time⟩

/-- The edges at some ports, given the values stored before. -/
def edgesFrom (kind : EdgeKind) (ports : List Nat) (stored : List (Nat × Value)) :
    List Episode → List PortEdge
  | [] => []
  | ep :: rest =>
    ep.edges kind ports stored ++ edgesFrom kind ports (stored ++ ep.stored?.toList) rest

/-- The last edge at some ports since the load. -/
def lastEdge? (kind : EdgeKind) (ports : List Nat) (eps : List Episode) : Option PortEdge :=
  (edgesFrom kind ports [] eps).getLast?

section Edges

variable {kind : EdgeKind} {ports : List Nat} {eps : List Episode} {ep : Episode}

theorem edgesFrom_concat (stored : List (Nat × Value)) (eps : List Episode) (ep : Episode) :
    edgesFrom kind ports stored (eps ++ [ep]) =
      edgesFrom kind ports stored eps ++ ep.edges kind ports (stored ++ stores eps) := by
  induction eps generalizing stored with
  | nil => simp [edgesFrom, stores]
  | cons first rest ih =>
    have hstores : stores (first :: rest) = first.stored?.toList ++ stores rest := by
      rw [stores, List.filterMap_cons]
      cases first.stored? <;> rfl
    rw [List.cons_append, edgesFrom, edgesFrom, ih, hstores, List.append_assoc, List.append_assoc]

theorem lastEdge?_concat :
    lastEdge? kind ports (eps ++ [ep]) =
      (ep.edges kind ports (stores eps)).getLast?.or (lastEdge? kind ports eps) := by
  rw [lastEdge?, edgesFrom_concat, List.nil_append, List.getLast?_append]
  rfl

/-- Whether an episode brings an edge at a port. -/
theorem mem_edges {edge : PortEdge} : edge ∈ ep.edges kind ports (stores eps) ↔
    edge.port ∈ ports ∧ edge.time = ep.time ∧ kind.isEdge (levels (stores eps) edge.port)
      (levels (stores (eps ++ [ep])) edge.port) = true := by
  obtain ⟨port, time⟩ := edge
  rw [stores_concat, Episode.edges]
  simp only [List.mem_map, List.mem_filter, PortEdge.mk.injEq]
  constructor
  · rintro ⟨_, ⟨hport, hedge⟩, rfl, rfl⟩
    exact ⟨hport, rfl, hedge⟩
  · rintro ⟨hport, rfl, hedge⟩
    exact ⟨port, ⟨hport, hedge⟩, rfl, rfl⟩

/-- The edge that an episode brings at the last of the ports is the last one. -/
theorem getLast?_edges_of_isEdge {port : Nat}
    (hedge : kind.isEdge (levels (stores eps) port) (levels (stores (eps ++ [ep])) port) = true) :
    (ep.edges kind (ports ++ [port]) (stores eps)).getLast? = some ⟨port, ep.time⟩ := by
  have hlast : ep.edges kind (ports ++ [port]) (stores eps) =
      ep.edges kind ports (stores eps) ++ [⟨port, ep.time⟩] := by
    rw [stores_concat] at hedge
    simp [Episode.edges, List.filter_append, hedge]
  rw [hlast, List.getLast?_concat]

theorem lastEdge?_concat_of_isEdge (ports : List Nat) {port : Nat}
    (hedge : kind.isEdge (levels (stores eps) port) (levels (stores (eps ++ [ep])) port) = true) :
    lastEdge? kind (ports ++ [port]) (eps ++ [ep]) = some ⟨port, ep.time⟩ := by
  rw [lastEdge?_concat, getLast?_edges_of_isEdge hedge]
  rfl

/-- Without an edge at the last of the ports, the one before it counts. -/
theorem lastEdge?_concat_of_isEdge_of_not_isEdge (ports : List Nat) {port other : Nat}
    (hedge : kind.isEdge (levels (stores eps) port) (levels (stores (eps ++ [ep])) port) = true)
    (hother : kind.isEdge (levels (stores eps) other)
      (levels (stores (eps ++ [ep])) other) = false) :
    lastEdge? kind (ports ++ [port] ++ [other]) (eps ++ [ep]) = some ⟨port, ep.time⟩ := by
  have hsame : ep.edges kind (ports ++ [port] ++ [other]) (stores eps) =
      ep.edges kind (ports ++ [port]) (stores eps) := by
    rw [stores_concat] at hother
    simp [Episode.edges, List.filter_append, List.filter_cons, hother]
  rw [lastEdge?_concat, hsame, getLast?_edges_of_isEdge hedge]
  rfl

/-- An episode without edges leaves the last edge as it was. -/
theorem lastEdge?_concat_of_not_isEdge
    (hedges : ∀ port ∈ ports, kind.isEdge (levels (stores eps) port)
      (levels (stores (eps ++ [ep])) port) = false) :
    lastEdge? kind ports (eps ++ [ep]) = lastEdge? kind ports eps := by
  have hnone : ep.edges kind ports (stores eps) = [] := by
    refine List.eq_nil_iff_forall_not_mem.2 fun edge hedge => ?_
    obtain ⟨hport, -, hedge⟩ := mem_edges.1 hedge
    rw [hedges edge.port hport] at hedge
    cases hedge
  rw [lastEdge?_concat, hnone]
  rfl

theorem EdgeKind.not_isEdge_self (kind : EdgeKind) (level : Bool) :
    kind.isEdge level level = false := by
  cases kind <;> cases level <;> rfl

/-- Nothing is stored, so there are no edges. -/
theorem lastEdge?_concat_of_stored? (h : ep.stored? = none) :
    lastEdge? kind ports (eps ++ [ep]) = lastEdge? kind ports eps := by
  refine lastEdge?_concat_of_not_isEdge fun port _ => ?_
  rw [stores_concat, h, Option.toList_none, List.append_nil]
  exact kind.not_isEdge_self _

end Edges

/-! ### Levels -/

section Levels

variable {eps : List Episode} {ep : Episode}

theorem levels_concat_of_stored? (h : ep.stored? = none) :
    levels (stores (eps ++ [ep])) = levels (stores eps) := by
  rw [stores_concat, h, Option.toList_none, List.append_nil]

/-- The value that an episode stores at a port sets its level. -/
theorem levels_stores_concat (port : Nat) : levels (stores (eps ++ [ep])) port =
    (ep.storedAt? port).elim (levels (stores eps) port) Value.truth := by
  rw [stores_concat, Episode.storedAt?]
  cases ep.stored? with
  | none => simp
  | some entry =>
    rw [Option.toList_some, levels_concat, Option.bind_some]
    by_cases hport : entry.1 = port
    · rw [if_pos hport, ← hport, Function.update_self]
      rfl
    · rw [if_neg hport, Function.update_of_ne (Ne.symm hport)]
      rfl

/-! ### Levels that last -/

/-- At this virtual time the port has been seen to be true, and it has been true ever since. -/
def HighSince (port : Nat) (eps : List Episode) (time : Nat) : Prop :=
  ∃ before ep after, eps = before ++ ep :: after ∧ ep.time = time ∧
    ∀ rest, rest <+: after → levels (stores (before ++ ep :: rest)) port = true

variable {port time : Nat}

theorem HighSince.level (h : HighSince port eps time) : levels (stores eps) port = true := by
  obtain ⟨before, ep, after, rfl, -, hhigh⟩ := h
  exact hhigh after (List.prefix_refl after)

theorem HighSince.concat (h : HighSince port eps time)
    (hlevel : levels (stores (eps ++ [ep])) port = true) : HighSince port (eps ++ [ep]) time := by
  obtain ⟨before, first, after, rfl, htime, hhigh⟩ := h
  rw [List.append_assoc, List.cons_append] at hlevel ⊢
  refine ⟨before, first, after ++ [ep], rfl, htime, fun rest hrest => ?_⟩
  rcases List.prefix_concat_iff.1 hrest with rfl | hrest
  · exact hlevel
  · exact hhigh rest hrest

/-- While a port is true, it does not rise. -/
theorem lastEdge?_append_of_high {after : List Episode}
    (hhigh : ∀ rest, rest <+: after → levels (stores (eps ++ rest)) port = true) :
    lastEdge? .rising [port] (eps ++ after) = lastEdge? .rising [port] eps := by
  induction after using List.reverseRecOn with
  | nil => rw [List.append_nil]
  | append_singleton after last ih =>
    have hprefix : after <+: after ++ [last] := List.prefix_append after [last]
    rw [← List.append_assoc, ← ih fun rest hrest => hhigh rest (hrest.trans hprefix)]
    refine lastEdge?_concat_of_not_isEdge fun port' hport => ?_
    rw [List.mem_singleton.1 hport, hhigh after hprefix]
    rfl

/-- Every edge is seen in an episode. -/
theorem exists_episode_of_lastEdge? {kind : EdgeKind} {ports : List Nat} {edge : PortEdge}
    (h : lastEdge? kind ports eps = some edge) : ∃ ep ∈ eps, ep.time = edge.time := by
  induction eps using List.reverseRecOn with
  | nil => cases h
  | append_singleton eps last ih =>
    rw [lastEdge?_concat, Option.or_eq_some_iff] at h
    rcases h with hlast | ⟨-, hearlier⟩
    · obtain ⟨-, htime, -⟩ := mem_edges.1 (List.mem_of_getLast? hlast)
      exact ⟨last, List.mem_append_right _ (List.mem_singleton_self last), htime.symm⟩
    · obtain ⟨ep, hep, htime⟩ := ih hearlier
      exact ⟨ep, List.mem_append_left _ hep, htime⟩

/-- A port that is true has been true since it rose last. -/
theorem highSince_of_lastEdge? (hlevel : levels (stores eps) port = true)
    (hrise : lastEdge? .rising [port] eps = some ⟨port, time⟩) : HighSince port eps time := by
  induction eps using List.reverseRecOn with
  | nil => cases hrise
  | append_singleton eps last ih =>
    -- either the port rises in the last episode, or it was true before and has not risen since
    cases hbefore : levels (stores eps) port with
    | false =>
      have hedge : EdgeKind.rising.isEdge (levels (stores eps) port)
          (levels (stores (eps ++ [last])) port) = true := by
        rw [hbefore, hlevel]
        rfl
      have hsame := Option.some.inj ((lastEdge?_concat_of_isEdge [] hedge).symm.trans hrise)
      obtain rfl : last.time = time := congrArg PortEdge.time hsame
      refine ⟨eps, last, [], rfl, rfl, fun rest hrest => ?_⟩
      rw [List.prefix_nil.1 hrest]
      exact hlevel
    | true =>
      have hsame : lastEdge? .rising [port] (eps ++ [last]) = lastEdge? .rising [port] eps := by
        refine lastEdge?_concat_of_not_isEdge fun port' hport => ?_
        rw [List.mem_singleton.1 hport, hbefore]
        rfl
      exact (ih hbefore (hsame.symm.trans hrise)).concat hlevel

/-- A port that has been true since some time has not risen after it. -/
theorem HighSince.rise_le {rise : Nat} (h : HighSince port eps time)
    (hsorted : eps.Pairwise fun ep ep' => ep.time ≤ ep'.time)
    (hrise : lastEdge? .rising [port] eps = some ⟨port, rise⟩) : rise ≤ time := by
  obtain ⟨before, first, after, rfl, rfl, hhigh⟩ := h
  -- what follows the first of these episodes brings no rise
  rw [List.append_cons] at hsorted hrise
  rw [lastEdge?_append_of_high] at hrise
  · obtain ⟨ep, hep, rfl⟩ := exists_episode_of_lastEdge? hrise
    have hbefore := (List.pairwise_append.1 (List.pairwise_append.1 hsorted).1).2.2
    rcases List.mem_append.1 hep with hep | hep
    · exact hbefore ep hep first (List.mem_singleton_self first)
    · rw [List.mem_singleton.1 hep]
  · intro rest hrest
    rw [List.append_assoc]
    exact hhigh rest hrest

/-- A port at which nothing true has been stored is false and has never fallen. -/
theorem lastEdge?_falling_of_never
    (hnever : ∀ value ∈ storedAt port eps, value.truth = false) :
    levels (stores eps) port = false ∧ lastEdge? .falling [port] eps = none := by
  induction eps using List.reverseRecOn with
  | nil => exact ⟨rfl, rfl⟩
  | append_singleton eps last ih =>
    rw [storedAt_concat] at hnever
    obtain ⟨hlow, hnone⟩ := ih fun value hvalue => hnever value (List.mem_append_left _ hvalue)
    constructor
    · rw [levels_stores_concat]
      cases hstored : last.storedAt? port with
      | none => exact hlow
      | some value =>
        exact hnever value (List.mem_append_right _ (Option.mem_toList.2 hstored))
    · rw [← hnone]
      refine lastEdge?_concat_of_not_isEdge fun port' hport => ?_
      rw [List.mem_singleton.1 hport, hlow]
      rfl

end Levels

end SignalGraph
