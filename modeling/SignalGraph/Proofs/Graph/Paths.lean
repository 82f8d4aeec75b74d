import Mathlib.Algebra.BigOperators.Fin
import Mathlib.Data.Fintype.List
import Mathlib.Data.Set.Card.Arithmetic
import SignalGraph.Proofs.Graph.Denotation

/-!
# Paths of links

A path starts at an output port and follows links; from an input of a node it goes on through any
output of that node. In a graph without cycles there are finitely many of them (`finite_paths`).
Their number is a sum over the links that can come first, of one for each such link and the number
of paths that go on from the node it leads to (`pathCount_eq`).
-/

namespace SignalGraph

namespace Graph

/-- A path of links that starts at an output port. The links are given by their numbers, so that two
links between the same ports make different paths. -/
inductive Path (links : List Link) : PortRef → List (Fin links.length) → Prop
  | single {p : PortRef} {i : Fin links.length} (hsource : links[i].source = p) : Path links p [i]
  | cons {p : PortRef} {i : Fin links.length} {port : Nat} {rest : List (Fin links.length)}
    (hsource : links[i].source = p) (hrest : Path links ⟨links[i].target.node, port⟩ rest) :
    Path links p (i :: rest)

/-- The paths that start at one of these output ports. -/
def paths (g : Graph) (starts : Set PortRef) : Set (List (Fin g.links.length)) :=
  {path | ∃ p ∈ starts, Path g.links p path}

/-- The number of paths that start at one of these output ports. -/
noncomputable def pathCount (g : Graph) (starts : Set PortRef) : Nat :=
  (g.paths starts).ncard

/-- The ports of a node. -/
def portsOf (i : Nat) : Set PortRef :=
  {p | p.node = i}

@[simp] theorem mem_portsOf {p : PortRef} {i : Nat} : p ∈ portsOf i ↔ p.node = i :=
  Iff.rfl

/-- The number of paths that begin with a given link to this input. -/
noncomputable def pathsThrough (g : Graph) (target : PortRef) : Nat :=
  1 + g.pathCount (portsOf target.node)

variable {g : Graph} {i : Nat} {starts : Set PortRef}

theorem pathCount_congr {g' : Graph} (h : g'.links = g.links) (starts : Set PortRef) :
    g'.pathCount starts = g.pathCount starts := by
  unfold pathCount paths
  rw [h]

theorem pathsThrough_congr {g' : Graph} (h : g'.links = g.links) :
    g'.pathsThrough = g.pathsThrough := by
  ext target
  rw [pathsThrough, pathsThrough, pathCount_congr h]

theorem feeds_congr {g' : Graph} (h : g'.links = g.links) : g'.Feeds = g.Feeds := by
  ext i j
  unfold Feeds
  rw [h]

theorem Acyclic.congr {g' : Graph} (ha : g.Acyclic) (h : g'.links = g.links) : g'.Acyclic := by
  unfold Acyclic
  rw [feeds_congr h]
  exact ha

/-! ### There are finitely many -/

/-- Every link of a path can be reached from where the path starts. -/
theorem Path.reaches {p : PortRef} {path : List (Fin g.links.length)} (h : Path g.links p path) :
    ∀ k ∈ path, Relation.TransGen g.Feeds p.node g.links[k].target.node := by
  have hfeeds : ∀ k : Fin g.links.length, g.Feeds g.links[k].source.node g.links[k].target.node :=
    fun k => ⟨g.links[k], List.getElem_mem k.isLt, rfl, rfl⟩
  induction h with
  | single hsource =>
    intro k hk
    obtain rfl := List.mem_singleton.1 hk
    exact hsource ▸ .single (hfeeds _)
  | cons hsource _ ih =>
    intro k hk
    rcases List.mem_cons.1 hk with rfl | hk
    · exact hsource ▸ .single (hfeeds _)
    · exact hsource ▸ .head (hfeeds _) (ih k hk)

/-- Without cycles, no path takes a link twice. -/
theorem Path.nodup (ha : g.Acyclic) {p : PortRef} {path : List (Fin g.links.length)}
    (h : Path g.links p path) : path.Nodup := by
  induction h with
  | single => exact List.nodup_singleton _
  | @cons _ i _ rest _ hrest ih =>
    refine List.nodup_cons.2 ⟨fun hi => ?_, ih⟩
    exact ha _ (hrest.reaches i hi)

/-- A path starts where its first link does. -/
theorem Path.unique {p q : PortRef} {path : List (Fin g.links.length)} (h : Path g.links p path)
    (h' : Path g.links q path) : p = q := by
  cases h with
  | single hsource =>
    cases h' with
    | single hsource' => exact hsource.symm.trans hsource'
    | cons hsource' => exact hsource.symm.trans hsource'
  | cons hsource =>
    cases h' with
    | single hsource' => exact hsource.symm.trans hsource'
    | cons hsource' => exact hsource.symm.trans hsource'

theorem finite_paths (ha : g.Acyclic) (starts : Set PortRef) : (g.paths starts).Finite := by
  have hnodup : {path : List (Fin g.links.length) | path.Nodup}.Finite :=
    Set.finite_coe_iff.1 (inferInstanceAs (Finite {path : List (Fin g.links.length) // path.Nodup}))
  exact hnodup.subset fun path ⟨_, _, hpath⟩ => hpath.nodup ha

/-! ### Counting them -/

open Classical in
/-- The paths whose first link is the one with this number. -/
def branch (g : Graph) (starts : Set PortRef) (i : Fin g.links.length) :
    Set (List (Fin g.links.length)) :=
  if g.links[i].source ∈ starts then
    insert [i] (List.cons i '' g.paths (portsOf g.links[i].target.node))
  else ∅

theorem paths_eq_iUnion (g : Graph) (starts : Set PortRef) :
    g.paths starts = ⋃ i, g.branch starts i := by
  ext path
  rw [Set.mem_iUnion]
  constructor
  · rintro ⟨p, hp, hpath⟩
    cases hpath with
    | @single _ i hsource =>
      refine ⟨i, ?_⟩
      rw [branch, if_pos (hsource.symm ▸ hp)]
      exact Set.mem_insert _ _
    | @cons _ i port rest hsource hrest =>
      refine ⟨i, ?_⟩
      rw [branch, if_pos (hsource.symm ▸ hp)]
      exact Set.mem_insert_of_mem _ ⟨rest, ⟨⟨_, port⟩, rfl, hrest⟩, rfl⟩
  · rintro ⟨i, hpath⟩
    unfold branch at hpath
    split at hpath
    · next hsource =>
      rcases hpath with rfl | ⟨rest, ⟨⟨node, port⟩, rfl, hrest⟩, rfl⟩
      · exact ⟨_, hsource, .single rfl⟩
      · exact ⟨_, hsource, .cons rfl hrest⟩
    · cases hpath

theorem head_of_mem_branch {path : List (Fin g.links.length)} {i : Fin g.links.length}
    (h : path ∈ g.branch starts i) : path.head? = some i := by
  unfold branch at h
  split at h
  · rcases h with rfl | ⟨rest, -, rfl⟩ <;> rfl
  · cases h

open Classical in
theorem ncard_branch (ha : g.Acyclic) (i : Fin g.links.length) :
    (g.branch starts i).ncard =
      if g.links[i].source ∈ starts then g.pathsThrough g.links[i].target else 0 := by
  unfold branch
  split
  · have hnil : [i] ∉ List.cons i '' g.paths (portsOf g.links[i].target.node) := by
      rintro ⟨rest, ⟨_, _, hrest⟩, heq⟩
      cases heq
      cases hrest
    have hfinite := (finite_paths ha (portsOf g.links[i].target.node)).image (List.cons i)
    rw [Set.ncard_insert_of_notMem hnil hfinite,
      Set.ncard_image_of_injective _ (List.cons_injective), Nat.add_comm]
    rfl
  · exact Set.ncard_empty _

open Classical in
/-- The number of paths by what can come first: a link alone, or one that goes on from the node it
leads to. -/
theorem pathCount_eq (ha : g.Acyclic) (starts : Set PortRef) :
    g.pathCount starts =
      (g.links.map fun l => if l.source ∈ starts then g.pathsThrough l.target else 0).sum := by
  have hfinite : ∀ i, (g.branch starts i).Finite := by
    intro i
    refine (finite_paths ha starts).subset ?_
    rw [paths_eq_iUnion]
    exact Set.subset_iUnion _ i
  have hdisjoint : Pairwise fun i j => Disjoint (g.branch starts i) (g.branch starts j) := by
    intro i j hij
    refine Set.disjoint_left.2 fun path hi hj => hij ?_
    exact Option.some.inj ((head_of_mem_branch hi).symm.trans (head_of_mem_branch hj))
  calc g.pathCount starts
      = ∑ i, (g.branch starts i).ncard := by
        rw [pathCount, paths_eq_iUnion, Set.ncard_iUnion_of_finite hfinite hdisjoint,
          finsum_eq_sum_of_fintype]
    _ = ∑ i : Fin g.links.length,
          if g.links[i].source ∈ starts then g.pathsThrough g.links[i].target else 0 :=
        Finset.sum_congr rfl fun i _ => ncard_branch ha i
    _ = _ := Fin.sum_univ_fun_getElem g.links fun l =>
          if l.source ∈ starts then g.pathsThrough l.target else 0

theorem pathCount_mono (ha : g.Acyclic) {starts' : Set PortRef} (h : starts ⊆ starts') :
    g.pathCount starts ≤ g.pathCount starts' := by
  refine Set.ncard_le_ncard ?_ (finite_paths ha starts')
  rintro path ⟨p, hp, hpath⟩
  exact ⟨p, h hp, hpath⟩

/-- The paths that start at one output begin with its links. -/
theorem pathCount_singleton (ha : g.Acyclic) (p : PortRef) :
    g.pathCount {p} = ((g.targets p).map g.pathsThrough).sum := by
  rw [pathCount_eq ha, targets]
  induction g.links with
  | nil => rfl
  | cons l rest ih =>
    rw [List.map_cons, List.sum_cons, ih]
    by_cases hl : l.source = p <;> simp [hl]

/-- Different outputs have different paths. -/
theorem sum_pathCount (ha : g.Acyclic) {l : List PortRef} (hl : l.Nodup) :
    (l.map fun p => g.pathCount {p}).sum = g.pathCount {p | p ∈ l} := by
  induction l with
  | nil =>
    have hempty : g.paths {p | p ∈ ([] : List PortRef)} = ∅ := by
      refine Set.eq_empty_of_forall_notMem ?_
      rintro path ⟨p, hp, -⟩
      cases hp
    rw [pathCount, hempty, Set.ncard_empty]
    rfl
  | cons p rest ih =>
    obtain ⟨hp, hrest⟩ := List.nodup_cons.1 hl
    have hunion : g.paths {q | q ∈ p :: rest} = g.paths {p} ∪ g.paths {q | q ∈ rest} := by
      ext path
      constructor
      · rintro ⟨q, hq, hpath⟩
        rcases List.mem_cons.1 hq with rfl | hq
        · exact .inl ⟨q, rfl, hpath⟩
        · exact .inr ⟨q, hq, hpath⟩
      · rintro (⟨q, rfl, hpath⟩ | ⟨q, hq, hpath⟩)
        · exact ⟨q, List.mem_cons_self, hpath⟩
        · exact ⟨q, List.mem_cons_of_mem _ hq, hpath⟩
    -- a path begins at one source only, and the sources are distinct
    have hdisjoint : Disjoint (g.paths {p}) (g.paths {q | q ∈ rest}) := by
      rw [Set.disjoint_left]
      rintro path ⟨q, rfl, hpath⟩ ⟨q', hq', hpath'⟩
      exact hp (hpath.unique hpath' ▸ hq')
    rw [List.map_cons, List.sum_cons, ih hrest, pathCount, pathCount, pathCount, hunion,
      Set.ncard_union_eq hdisjoint (finite_paths ha _) (finite_paths ha _)]

end Graph

end SignalGraph
