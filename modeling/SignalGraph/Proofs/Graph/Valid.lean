import SignalGraph.Proofs.Graph.Built
import SignalGraph.Proofs.SideBySide

/-!
# The valid part of a declaration

Elements are added one after the other, and whether one is kept depends on those that were kept
before it. A verdict on each of them says what became of it (`Graph.verdicts`). A node is kept if it
is valid and its id is free, a link if each of its ends names a port among the nodes that were kept;
neither condition speaks of the graph that is built. What a graph consists of, the errors that are
reported and what is built from the kept elements alone follow from the verdicts
(`Graph.build_valid_part`).
-/

namespace SignalGraph

/-! ### What is valid -/

/-- The type of a node has a name, and its parameters are accepted. -/
def NodeDecl.Valid (d : NodeDecl) : Prop :=
  ∃ ty, NodeType.ofName? d.typeName = some ty ∧
    ∃ b, Behavior.ofParams ty ⟨d.id, d.params⟩ = .ok b

/-- Why a node is left out when these nodes have been kept before it. -/
inductive NodeDecl.Refused (kept : List NodeDecl) (d : NodeDecl) : ConfigError → Prop
  | taken {nd : NodeDecl} (hmem : nd ∈ kept) (hid : nd.id = d.id) :
    Refused kept d (.duplicateNode d.id)
  | unknownType (hfree : ∀ nd ∈ kept, nd.id ≠ d.id) (htype : NodeType.ofName? d.typeName = none) :
    Refused kept d (.unknownType d.id d.typeName)
  | params (hfree : ∀ nd ∈ kept, nd.id ≠ d.id) {ty : NodeType}
    (htype : NodeType.ofName? d.typeName = some ty) {e : ConfigError}
    (hparams : Behavior.ofParams ty ⟨d.id, d.params⟩ = .error e) : Refused kept d e

/-- The end of a link names this port, by number, when these nodes have been kept. The ports of a
type that it may name are its inputs or its outputs. -/
def Endpoint.Names (e : Endpoint) (kept : List NodeDecl) (ports : NodeType → List String)
    (p : PortRef) : Prop :=
  ∃ nd ∈ kept[p.node]?, nd.id = e.node ∧
    ∃ ty ∈ NodeType.ofName? nd.typeName, (ports ty)[p.port]? = some e.port

instance (e : Endpoint) (kept : List NodeDecl) (ports : NodeType → List String) (p : PortRef) :
    Decidable (e.Names kept ports p) :=
  inferInstanceAs (Decidable (∃ nd ∈ kept[p.node]?, _ ∧ ∃ ty ∈ NodeType.ofName? nd.typeName, _))

/-- The ends of a link name the ports that a link of a graph joins. -/
def LinkDecl.Names (kept : List NodeDecl) (d : LinkDecl) (l : Link) : Prop :=
  d.source.Names kept NodeType.outputs l.source ∧ d.target.Names kept NodeType.inputs l.target

/-- One of the nodes that have been kept is the one that the end of a link names. -/
def Endpoint.Present (e : Endpoint) (kept : List NodeDecl) : Prop :=
  ∃ nd ∈ kept, nd.id = e.node

/-- One of the nodes that have been kept is the one that the end of a link names, and its type
declares the port. -/
def Endpoint.Valid (e : Endpoint) (kept : List NodeDecl) (ports : NodeType → List String) : Prop :=
  ∃ nd ∈ kept, nd.id = e.node ∧ ∃ ty, NodeType.ofName? nd.typeName = some ty ∧ e.port ∈ ports ty

/-- Why a link is left out when these nodes have been kept. -/
inductive LinkDecl.Refused (kept : List NodeDecl) (d : LinkDecl) : ConfigError → Prop
  | noSource (hsource : ¬ d.source.Present kept) : Refused kept d (.missingNode d.source.node)
  | noTarget (hsource : d.source.Present kept) (htarget : ¬ d.target.Present kept) :
    Refused kept d (.missingNode d.target.node)
  | noOutput (hsource : d.source.Present kept) (htarget : d.target.Present kept)
    (hport : ¬ d.source.Valid kept NodeType.outputs) :
    Refused kept d (.unknownPort d.source.node d.source.port)
  | noInput (hsource : d.source.Valid kept NodeType.outputs) (htarget : d.target.Present kept)
    (hport : ¬ d.target.Valid kept NodeType.inputs) :
    Refused kept d (.unknownPort d.target.node d.target.port)

theorem NodeType.nodup_outputs (ty : NodeType) : ty.outputs.Nodup := by
  cases ty <;> decide

section Refused

variable {kept : List NodeDecl} {ports : NodeType → List String} {e : Endpoint} {p q : PortRef}

/-- What is refused is not valid, or its id is taken. -/
theorem NodeDecl.Refused.not_valid {d : NodeDecl} {error : ConfigError}
    (h : d.Refused kept error) : ¬ (d.Valid ∧ ∀ nd ∈ kept, nd.id ≠ d.id) := by
  rintro ⟨⟨ty, htype, b, hparams⟩, hfree⟩
  cases h with
  | taken hmem hid => exact hfree _ hmem hid
  | unknownType _ hnone => cases hnone.symm.trans htype
  | params _ htype' herror =>
    obtain rfl := Option.some.inj (htype.symm.trans htype')
    cases herror.symm.trans hparams

theorem Endpoint.Valid.present (h : e.Valid kept ports) : e.Present kept :=
  h.imp fun _ hnd => ⟨hnd.1, hnd.2.1⟩

/-- A link that is refused has an end that is not valid. -/
theorem LinkDecl.Refused.not_valid {d : LinkDecl} {error : ConfigError} (h : d.Refused kept error) :
    ¬ (d.source.Valid kept NodeType.outputs ∧ d.target.Valid kept NodeType.inputs) := by
  rintro ⟨hsource, htarget⟩
  cases h with
  | noSource hnone => exact hnone hsource.present
  | noTarget _ hnone => exact hnone htarget.present
  | noOutput _ _ hport => exact hport hsource
  | noInput _ _ hport => exact hport htarget

/-- The end of a link names a port if it is valid. -/
theorem Endpoint.valid_iff_exists_names : e.Valid kept ports ↔ ∃ p, e.Names kept ports p := by
  constructor
  · rintro ⟨nd, hnd, hid, ty, htype, hport⟩
    obtain ⟨i, hi⟩ := List.getElem?_of_mem hnd
    obtain ⟨k, hk⟩ := List.getElem?_of_mem hport
    exact ⟨⟨i, k⟩, nd, hi, hid, ty, htype, hk⟩
  · rintro ⟨p, nd, hnd, hid, ty, htype, hport⟩
    exact ⟨nd, List.mem_of_getElem? hnd, hid, ty, htype, List.mem_of_getElem? hport⟩

/-- It names no more than one port. -/
theorem Endpoint.Names.unique (hids : (kept.map NodeDecl.id).Nodup)
    (hports : ∀ ty, (ports ty).Nodup)
    (hp : e.Names kept ports p) (hq : e.Names kept ports q) : p = q := by
  obtain ⟨i, k⟩ := p
  obtain ⟨j, l⟩ := q
  obtain ⟨nd, hnd, hid, ty, htype, hport⟩ := hp
  obtain ⟨nd', hnd', hid', ty', htype', hport'⟩ := hq
  rw [Option.mem_def] at hnd hnd' htype htype'
  dsimp only at hnd hnd' hport hport'
  -- one id stands at one place among the nodes, and one name at one place among the ports
  obtain rfl : i = j := by
    refine (List.getElem?_inj ?_ hids).1 ?_
    · simpa using (List.getElem?_eq_some_iff.1 hnd).1
    · rw [List.getElem?_map, List.getElem?_map, hnd, hnd', Option.map_some, Option.map_some, hid,
        hid']
  obtain rfl := Option.some.inj (hnd.symm.trans hnd')
  obtain rfl := Option.some.inj (htype.symm.trans htype')
  obtain rfl : k = l :=
    (List.getElem?_inj (List.getElem?_eq_some_iff.1 hport).1 (hports ty)).1
      (hport.trans hport'.symm)
  rfl

end Refused

/-! ### Verdicts -/

/-- An element of a declaration, and the error with which it was left out, if it was. -/
structure Verdict (δ : Type) where
  decl : δ
  error? : Option ConfigError

namespace Verdict

variable {δ : Type} (vs : List (Verdict δ))

/-- The elements that were kept. -/
def kept : List δ :=
  (vs.filter fun v => v.error?.isNone).map decl

/-- The errors of those that were not. -/
def errors : List ConfigError :=
  vs.filterMap error?

/-- A verdict is right if what is valid is kept and anything else is left out for a reason. -/
structure Right (v : Verdict δ) (valid : Prop) (refused : ConfigError → Prop) : Prop where
  kept_iff : v.error? = none ↔ valid
  refused : ∀ e, v.error? = some e → refused e

/-- Every declaration is kept or refused. -/
theorem length_kept_add_errors : (kept vs).length + (errors vs).length = vs.length := by
  induction vs with
  | nil => rfl
  | cons v vs ih =>
    obtain ⟨d, error?⟩ := v
    cases error? <;> simp_all [kept, errors] <;> omega

end Verdict

namespace Graph

/-- The error with which something fails, if it does. -/
def refusal? {α : Type} : Except ConfigError α → Option ConfigError
  | .ok _ => none
  | .error e => some e

/-- A verdict is right if what is added is valid and what is refused is not. -/
theorem right_of_refusal? {δ α : Type} {v : Verdict δ} {x : Except ConfigError α} {valid : Prop}
    {refused : ConfigError → Prop} (h : v.error? = refusal? x) (hok : ∀ a, x = .ok a → valid)
    (herror : ∀ e, x = .error e → refused e) (hnot : ∀ e, refused e → ¬ valid) :
    v.Right valid refused := by
  cases x with
  | ok a => exact ⟨⟨fun _ => hok a rfl, fun _ => h⟩, fun e he => by cases h.symm.trans he⟩
  | error e =>
    have he := herror e rfl
    refine ⟨⟨fun hnone => ?_, fun hvalid => (hnot e he hvalid).elim⟩, fun e' he' => ?_⟩
    · cases h.symm.trans hnone
    · obtain rfl : e = e' := Option.some.inj (h.symm.trans he')
      exact he

/-- What becomes of elements that are added one after the other. -/
def verdicts {δ : Type} (add : Graph → δ → Except ConfigError Graph) :
    Graph → List δ → List (Verdict δ)
  | _, [] => []
  | g, d :: ds => ⟨d, refusal? (add g d)⟩ :: verdicts add ((add g d).toOption.getD g) ds

section Adding

variable {δ α : Type} {add : Graph → δ → Except ConfigError Graph}

/-- The first declaration is added or refused, and the others are added to what results. -/
theorem addAll_cons (g : Graph) (d : δ) (ds : List δ) : addAll add g (d :: ds) =
    ((addAll add ((add g d).toOption.getD g) ds).1,
      (refusal? (add g d)).toList ++ (addAll add ((add g d).toOption.getD g) ds).2) := by
  rw [addAll]
  cases add g d <;> rfl

/-- There is one verdict for each declaration, in their order. -/
theorem map_decl_verdicts (g : Graph) (ds : List δ) :
    (verdicts add g ds).map Verdict.decl = ds := by
  induction ds generalizing g with
  | nil => rfl
  | cons d ds ih => rw [verdicts, List.map_cons, ih]

/-- The errors are those of the verdicts. -/
theorem errors_addAll (g : Graph) (ds : List δ) :
    (addAll add g ds).2 = Verdict.errors (verdicts add g ds) := by
  induction ds generalizing g with
  | nil => rfl
  | cons d ds ih =>
    rw [addAll_cons, ih, verdicts]
    cases add g d <;> rfl

/-- What is left out has changed nothing, so the kept elements alone make the same graph. -/
theorem addAll_kept (g : Graph) (ds : List δ) :
    addAll add g (Verdict.kept (verdicts add g ds)) = ((addAll add g ds).1, []) := by
  induction ds generalizing g with
  | nil => rfl
  | cons d ds ih =>
    rw [verdicts, addAll_cons]
    cases hadd : add g d with
    | ok g' =>
      show addAll add g (d :: Verdict.kept (verdicts add g' ds)) = _
      rw [addAll_cons, hadd]
      exact congrArg (fun r => (r.1, [] ++ r.2)) (ih g')
    | error e => exact ih g

/-- An element is judged by the graph that those before it have made. -/
theorem error?_of_verdicts {g : Graph} {ds : List δ} {before after : List (Verdict δ)}
    {v : Verdict δ} (h : verdicts add g ds = before ++ v :: after) :
    ∃ earlier, verdicts add g earlier = before ∧
      v.error? = refusal? (add (addAll add g earlier).1 v.decl) := by
  induction ds generalizing g before with
  | nil => exact absurd h (by simp [verdicts])
  | cons d ds ih =>
    rw [verdicts] at h
    cases before with
    | nil =>
      cases h
      exact ⟨[], rfl, rfl⟩
    | cons u before =>
      obtain ⟨rfl, hlater⟩ := List.cons.inj h
      obtain ⟨earlier, rfl, herror⟩ := ih hlater
      exact ⟨d :: earlier, rfl, by rw [herror, addAll_cons]⟩

/-- If each element that is kept puts one item at the end, then the items are those of the kept
elements, in their order. -/
theorem exists_items_addAll {items : Graph → List α} {R : δ → α → Prop} {P : Graph → Prop}
    (hadd : ∀ g d g', P g → add g d = .ok g' → P g' ∧ ∃ a, items g' = items g ++ [a] ∧ R d a)
    {g : Graph} (hg : P g) (ds : List δ) : ∃ as, items (addAll add g ds).1 = items g ++ as ∧
      List.Forall₂ R (Verdict.kept (verdicts add g ds)) as := by
  induction ds generalizing g with
  | nil => exact ⟨[], (List.append_nil _).symm, .nil⟩
  | cons d ds ih =>
    rw [addAll_cons, verdicts]
    cases hok : add g d with
    | ok g' =>
      obtain ⟨hg', a, hitems, ha⟩ := hadd g d g' hg hok
      obtain ⟨as, has, hall⟩ := ih hg'
      refine ⟨a :: as, ?_, .cons ha hall⟩
      exact has.trans (by rw [hitems, List.append_assoc, List.singleton_append])
    | error e => exact ih hg

end Adding

/-! ### Nodes -/

/-- The nodes of the graph are those that these declarations build, in their order. -/
def BuiltFrom (g : Graph) (kept : List NodeDecl) : Prop :=
  List.Forall₂ (fun nd n => nd.build = .ok n) kept g.nodes.toList

variable {g g' : Graph} {kept : List NodeDecl}

namespace BuiltFrom

variable (hkept : g.BuiltFrom kept)
include hkept

/-- The nodes of the graph have the ids of the declarations kept. -/
theorem map_id : kept.map NodeDecl.id = g.nodes.toList.map Node.id := by
  rw [← List.forall₂_eq_eq_eq, List.forall₂_map_left_iff, List.forall₂_map_right_iff]
  exact hkept.imp fun _ _ hbuild => (NodeDecl.fresh_of_build hbuild).2.symm

/-- Each declaration kept has a node at its place. -/
theorem exists_node {i : Nat} {nd : NodeDecl} (hnd : kept[i]? = some nd) :
    ∃ n, g.nodes[i]? = some n ∧ nd.build = .ok n := by
  rcases forall₂_getElem? hkept i with ⟨hnone, -⟩ | ⟨nd', n, hnd', hn, hbuild⟩
  · cases hnone.symm.trans hnd
  · obtain rfl := Option.some.inj (hnd.symm.trans hnd')
    rw [Array.getElem?_toList] at hn
    exact ⟨n, hn, hbuild⟩

/-- Each node comes from the declaration kept at its place. -/
theorem exists_decl {i : Nat} {n : Node} (hn : g.nodes[i]? = some n) :
    ∃ nd, kept[i]? = some nd ∧ nd.build = .ok n := by
  rw [← Array.getElem?_toList] at hn
  rcases forall₂_getElem? hkept i with ⟨-, hnone⟩ | ⟨nd, n', hnd, hn', hbuild⟩
  · cases hnone.symm.trans hn
  · obtain rfl := Option.some.inj (hn.symm.trans hn')
    exact ⟨nd, hnd, hbuild⟩

/-- The nodes that have been built answer to the names of their declarations. -/
theorem names_iff {e : Endpoint} {ports : NodeType → List String} {p : PortRef} :
    e.Names kept ports p ↔ ∃ n, g.nodes[p.node]? = some n ∧ n.id = e.node ∧
      (ports n.ports.type)[p.port]? = some e.port := by
  constructor
  · rintro ⟨nd, hnd, hid, ty, hty, hport⟩
    obtain ⟨n, hn, hbuild⟩ := hkept.exists_node hnd
    rw [Option.mem_def, (NodeDecl.ofParams_of_build hbuild).1, Option.some_inj] at hty
    subst hty
    exact ⟨n, hn, (NodeDecl.fresh_of_build hbuild).2.trans hid, hport⟩
  · rintro ⟨n, hn, hid, hport⟩
    obtain ⟨nd, hnd, hbuild⟩ := hkept.exists_decl hn
    exact ⟨nd, hnd, (NodeDecl.fresh_of_build hbuild).2.symm.trans hid, n.ports.type,
      Option.mem_def.2 (NodeDecl.ofParams_of_build hbuild).1, hport⟩

/-- An id is free exactly if no declaration kept has it. -/
theorem indexOf?_eq_none_iff {id : String} :
    g.indexOf? id = none ↔ ∀ nd ∈ kept, nd.id ≠ id := by
  have hids : (∀ nd ∈ kept, nd.id ≠ id) ↔ id ∉ kept.map NodeDecl.id := by
    rw [List.mem_map]
    exact ⟨fun h ⟨nd, hnd, hid⟩ => h nd hnd hid, fun h nd hnd hid => h ⟨nd, hnd, hid⟩⟩
  rw [hids, hkept.map_id, indexOf?, Array.findIdx?_eq_none_iff, List.mem_map]
  simp

/-- A node that is added is valid, and its id is free. -/
theorem valid_of_addNode {d : NodeDecl} (hadd : g.addNode d = .ok g') :
    d.Valid ∧ ∀ nd ∈ kept, nd.id ≠ d.id := by
  unfold addNode at hadd
  split at hadd
  · cases hadd
  · next hnone =>
    obtain ⟨n, hbuild, -⟩ := exists_of_map_eq_ok hadd
    obtain ⟨htype, hparams⟩ := NodeDecl.ofParams_of_build hbuild
    exact ⟨⟨_, htype, _, hparams⟩, hkept.indexOf?_eq_none_iff.1 hnone⟩

/-- A node is refused for its parameters or because its id is taken. -/
theorem refused_of_addNode {d : NodeDecl} {e : ConfigError} (hadd : g.addNode d = .error e) :
    d.Refused kept e := by
  unfold addNode at hadd
  split at hadd
  · next i hindex =>
    cases hadd
    obtain ⟨n, hn, hid⟩ := exists_node_of_indexOf? hindex
    obtain ⟨nd, hnd, hbuild⟩ := hkept.exists_decl hn
    exact .taken (List.mem_of_getElem? hnd) ((NodeDecl.fresh_of_build hbuild).2.symm.trans hid)
  · next hnone =>
    have hfree := hkept.indexOf?_eq_none_iff.1 hnone
    have hbuild : d.build = .error e := eq_error_of_map_eq_error hadd
    unfold NodeDecl.build at hbuild
    split at hbuild
    · next htype =>
      cases hbuild
      exact .unknownType hfree htype
    · next ty htype =>
      exact .params hfree htype (eq_error_of_map_eq_error hbuild)

end BuiltFrom

/-- The nodes that have been added are those of the declarations kept. -/
theorem builtFrom_addAll_addNode (graph : String) (ds : List NodeDecl) :
    (addAll addNode { id := graph } ds).1.BuiltFrom
      (Verdict.kept (verdicts addNode { id := graph } ds)) := by
  have hadd (g : Graph) (nd : NodeDecl) (g' : Graph) (_ : True) (hadd : addNode g nd = .ok g') :
      True ∧ ∃ n, g'.nodes.toList = g.nodes.toList ++ [n] ∧ nd.build = .ok n := by
    unfold addNode at hadd
    split at hadd
    · cases hadd
    · obtain ⟨n, hbuild, rfl⟩ := exists_of_map_eq_ok hadd
      exact ⟨trivial, n, Array.toList_push, hbuild⟩
  obtain ⟨ns, hnodes, hbuilt⟩ := exists_items_addAll hadd (g := { id := graph }) trivial ds
  unfold BuiltFrom
  rw [hnodes]
  exact hbuilt

/-! ### Links -/

/-- What the end of a link names, if it is found. -/
theorem BuiltFrom.names_of_resolveNode (hkept : g.BuiltFrom kept) {e : Endpoint} {i port : Nat}
    {ty : NodeType} {ports : NodeType → List String} (h : g.resolveNode e = .ok (i, ty))
    (hport : (ports ty).findIdx? (· == e.port) = some port) : e.Names kept ports ⟨i, port⟩ := by
  obtain ⟨n, hn, hid, rfl⟩ := exists_of_resolveNode h
  obtain ⟨hlt, hname, -⟩ := List.findIdx?_eq_some_iff_getElem.1 hport
  exact hkept.names_iff.2 ⟨n, hn, hid, by rw [List.getElem?_eq_getElem hlt, beq_iff_eq.1 hname]⟩

section Links

variable (hkept : g.BuiltFrom kept) {d : LinkDecl}
include hkept

/-- The ends of a link are the ports that its declaration names. -/
theorem names_of_resolveLink {l : Link} (h : g.resolveLink d = .ok l) :
    LinkDecl.Names kept d l := by
  obtain ⟨sourceType, targetType, hsource, htarget, hsourcePort, htargetPort⟩ :=
    exists_of_resolveLink h
  exact ⟨hkept.names_of_resolveNode hsource hsourcePort,
    hkept.names_of_resolveNode htarget htargetPort⟩

/-- An end that is found names a node that is there. -/
theorem present_of_resolveNode {e : Endpoint} {i : Nat} {ty : NodeType}
    (h : g.resolveNode e = .ok (i, ty)) : e.Present kept := by
  obtain ⟨n, hn, hid, -⟩ := exists_of_resolveNode h
  obtain ⟨nd, hnd, hbuild⟩ := hkept.exists_decl hn
  exact ⟨nd, List.mem_of_getElem? hnd, (NodeDecl.fresh_of_build hbuild).2.symm.trans hid⟩

/-- An end that is not found names none. -/
theorem not_present_of_resolveNode {e : Endpoint} {error : ConfigError}
    (h : g.resolveNode e = .error error) : ¬ e.Present kept := by
  rintro ⟨nd, hnd, hid⟩
  exact hkept.indexOf?_eq_none_iff.1 (of_resolveNode_eq_error h).1 nd hnd hid

/-- The type of the node that an end names does not declare a port that is not found. -/
theorem not_valid_of_resolveNode (hids : (kept.map NodeDecl.id).Nodup) {e : Endpoint} {i : Nat}
    {ty : NodeType} {ports : NodeType → List String} (h : g.resolveNode e = .ok (i, ty))
    (hport : (ports ty).findIdx? (· == e.port) = none) : ¬ e.Valid kept ports := by
  rintro ⟨nd, hnd, hid, ty', htype, hmem⟩
  obtain ⟨n, hn, hnid, rfl⟩ := exists_of_resolveNode h
  obtain ⟨nd', hnd', hbuild⟩ := hkept.exists_decl hn
  obtain rfl : nd = nd' := List.inj_on_of_nodup_map hids hnd (List.mem_of_getElem? hnd')
    (hid.trans (hnid.symm.trans (NodeDecl.fresh_of_build hbuild).2))
  rw [(NodeDecl.ofParams_of_build hbuild).1, Option.some_inj] at htype
  subst htype
  have := List.findIdx?_eq_none_iff.1 hport _ hmem
  simp at this

/-- A link is refused for the first fault, in the order in which its ends are looked up. -/
theorem refused_of_resolveLink (hids : (kept.map NodeDecl.id).Nodup) {e : ConfigError}
    (h : g.resolveLink d = .error e) : d.Refused kept e := by
  unfold resolveLink at h
  cases hsource : g.resolveNode d.source with
  | error e' =>
    rw [hsource] at h
    cases h
    rw [(of_resolveNode_eq_error hsource).2]
    exact .noSource (not_present_of_resolveNode hkept hsource)
  | ok s =>
    cases htarget : g.resolveNode d.target with
    | error e' =>
      rw [hsource, htarget] at h
      cases h
      rw [(of_resolveNode_eq_error htarget).2]
      exact .noTarget (present_of_resolveNode hkept hsource)
        (not_present_of_resolveNode hkept htarget)
    | ok t =>
      -- both nodes are there, so the ports are looked up, first that of the source
      simp only [hsource, htarget, bind, Except.bind] at h
      have hsourcePresent := present_of_resolveNode hkept hsource
      have htargetPresent := present_of_resolveNode hkept htarget
      split at h
      · cases h
      · next hport =>
        cases h
        exact .noOutput hsourcePresent htargetPresent
          (not_valid_of_resolveNode hkept hids hsource hport)
      · next hsourcePort hport =>
        cases h
        exact .noInput (Endpoint.valid_iff_exists_names.2
            ⟨_, hkept.names_of_resolveNode hsource hsourcePort⟩) htargetPresent
          (not_valid_of_resolveNode hkept hids htarget hport)

/-- The links are those that these declarations name, and what one more adds is named by it. -/
theorem forall₂_links_addAll (hlinks : g.links = []) (ds : List LinkDecl) :
    List.Forall₂ (LinkDecl.Names kept) (Verdict.kept (verdicts addLink g ds))
      (addAll addLink g ds).1.links := by
  have hadd (g : Graph) (d : LinkDecl) (g' : Graph) (hg : g.BuiltFrom kept)
      (hadd : addLink g d = .ok g') :
      g'.BuiltFrom kept ∧ ∃ l, g'.links = g.links ++ [l] ∧ d.Names kept l := by
    obtain ⟨l, hl, rfl⟩ := exists_of_map_eq_ok hadd
    exact ⟨hg, l, rfl, names_of_resolveLink hg hl⟩
  obtain ⟨ls, hall, hnames⟩ := exists_items_addAll hadd hkept ds
  rw [hall, hlinks]
  exact hnames

omit hkept in
/-- The inputs that an output feeds are those that the links from it name. -/
theorem forall₂_targets (hids : (kept.map NodeDecl.id).Nodup) {ds : List LinkDecl}
    (hlinks : List.Forall₂ (LinkDecl.Names kept) ds g.links) (p : PortRef) :
    List.Forall₂ (fun (d : LinkDecl) t => d.target.Names kept NodeType.inputs t)
      (ds.filter fun d => d.source.Names kept NodeType.outputs p) (g.targets p) := by
  unfold targets
  generalize g.links = links at hlinks
  induction hlinks with
  | nil => exact .nil
  | @cons d l ds links hl _ ih =>
    obtain ⟨hsource, htarget⟩ := hl
    by_cases hp : l.source = p
    · rw [List.filter_cons_of_pos (by simpa using hp ▸ hsource), List.filterMap_cons, if_pos hp]
      exact .cons htarget ih
    · have hother : ¬ d.source.Names kept NodeType.outputs p := fun hnames =>
        hp (hsource.unique hids NodeType.nodup_outputs hnames)
      rw [List.filter_cons_of_neg (by simpa using hother), List.filterMap_cons, if_neg hp]
      exact ih

end Links

/-! ### The graph of a declaration -/

/-- A graph is built from the valid part of its declaration. -/
structure BuildsValidPart (d : GraphDecl) (nodes : List (Verdict NodeDecl))
    (links : List (Verdict LinkDecl)) : Prop where
  decl_nodes : nodes.map Verdict.decl = d.nodes
  decl_links : links.map Verdict.decl = d.links
  /-- A node is kept if it is valid and none of the nodes that were kept before it has its id. -/
  node_right : ∀ before v after, nodes = before ++ v :: after →
    v.Right (v.decl.Valid ∧ ∀ nd ∈ Verdict.kept before, nd.id ≠ v.decl.id)
      (v.decl.Refused (Verdict.kept before))
  /-- A link is kept if both ends name nodes that were kept and declared ports of their types. -/
  link_right : ∀ v ∈ links, v.Right
    (v.decl.source.Valid (Verdict.kept nodes) NodeType.outputs ∧
      v.decl.target.Valid (Verdict.kept nodes) NodeType.inputs)
    (v.decl.Refused (Verdict.kept nodes))
  errors_eq : (build d).2 = Verdict.errors nodes ++ Verdict.errors links
  /-- The nodes are those that the kept declarations build, in their order. -/
  built : (build d).1.BuiltFrom (Verdict.kept nodes)
  nodup_ids : ((build d).1.nodes.toList.map Node.id).Nodup
  /-- An output feeds what the kept links from it name, in their order and as often as they do. -/
  targets : ∀ p, List.Forall₂
    (fun (l : LinkDecl) t => l.target.Names (Verdict.kept nodes) NodeType.inputs t)
    ((Verdict.kept links).filter fun l => l.source.Names (Verdict.kept nodes) NodeType.outputs p)
    ((build d).1.targets p)
  target_lt : ∀ p, ∀ t ∈ (build d).1.targets p, ∃ n, (build d).1.nodes[t.node]? = some n ∧
    t.port < n.ports.type.inputs.length
  size_nodes : (build d).1.nodes.size + (Verdict.errors nodes).length = d.nodes.length
  length_links : (build d).1.links.length + (Verdict.errors links).length = d.links.length
  /-- Without the elements that were left out, the same graph is built and nothing is left out. -/
  rebuilt : build { d with nodes := Verdict.kept nodes, links := Verdict.kept links } =
    ((build d).1, [])

/-- The verdicts on nodes are right, each by the nodes kept before. -/
theorem right_of_verdicts_addNode {graph : String} {ds : List NodeDecl}
    {before after : List (Verdict NodeDecl)} {v : Verdict NodeDecl}
    (h : verdicts addNode { id := graph } ds = before ++ v :: after) :
    v.Right (v.decl.Valid ∧ ∀ nd ∈ Verdict.kept before, nd.id ≠ v.decl.id)
      (v.decl.Refused (Verdict.kept before)) := by
  obtain ⟨earlier, rfl, herror⟩ := error?_of_verdicts h
  have hearlier := builtFrom_addAll_addNode graph earlier
  exact right_of_refusal? herror (fun _ hok => hearlier.valid_of_addNode hok)
    (fun _ => hearlier.refused_of_addNode) fun _ hrefused => hrefused.not_valid

/-- The verdicts on links are right, all by the nodes kept. -/
theorem right_of_verdicts_addLink (hkept : g.BuiltFrom kept) (hids : (kept.map NodeDecl.id).Nodup)
    {ds : List LinkDecl} {v : Verdict LinkDecl} (h : v ∈ verdicts addLink g ds) :
    v.Right (v.decl.source.Valid kept NodeType.outputs ∧ v.decl.target.Valid kept NodeType.inputs)
      (v.decl.Refused kept) := by
  obtain ⟨before, after, hsplit⟩ := List.append_of_mem h
  obtain ⟨earlier, -, herror⟩ := error?_of_verdicts hsplit
  -- links change no nodes
  have hearlier : (addAll addLink g earlier).1.BuiltFrom kept := by
    rw [BuiltFrom, nodes_addAll_addLink]
    exact hkept
  refine right_of_refusal? herror (fun _ hok => ?_) (fun e he => ?_)
    fun _ hrefused => hrefused.not_valid
  · obtain ⟨l, hl, -⟩ := exists_of_map_eq_ok hok
    obtain ⟨hsource, htarget⟩ := names_of_resolveLink hearlier hl
    exact ⟨Endpoint.valid_iff_exists_names.2 ⟨_, hsource⟩,
      Endpoint.valid_iff_exists_names.2 ⟨_, htarget⟩⟩
  · exact refused_of_resolveLink hearlier hids (eq_error_of_map_eq_error he)

/-- Whatever is declared, the graph is built from the valid part of it. -/
theorem build_valid_part (d : GraphDecl) : ∃ nodes links, BuildsValidPart d nodes links := by
  let start : Graph := { id := d.id }
  let bare : Graph := (addAll addNode start d.nodes).1
  let nodes : List (Verdict NodeDecl) := verdicts addNode start d.nodes
  let links : List (Verdict LinkDecl) := verdicts addLink bare d.links
  -- nodes are added first, while there are no links, and links among the nodes that are there then
  obtain ⟨hnone, hfresh⟩ := fresh_addAll_addNode d.id d.nodes
  have hsound := (fresh_build d).sound
  have hbare : bare.BuiltFrom (Verdict.kept nodes) := builtFrom_addAll_addNode d.id d.nodes
  have hids : ((Verdict.kept nodes).map NodeDecl.id).Nodup := by
    rw [hbare.map_id]
    exact hfresh.sound.nodup_ids
  have hbuilt : (build d).1.BuiltFrom (Verdict.kept nodes) := by
    rw [BuiltFrom, nodes_build]
    exact hbare
  have hlinks : List.Forall₂ (LinkDecl.Names (Verdict.kept nodes)) (Verdict.kept links)
      (build d).1.links := forall₂_links_addAll hbare hnone d.links
  have hnodesDecl : nodes.map Verdict.decl = d.nodes := map_decl_verdicts start d.nodes
  have hlinksDecl : links.map Verdict.decl = d.links := map_decl_verdicts bare d.links
  have hnodesErrors : (addAll addNode start d.nodes).2 = Verdict.errors nodes :=
    errors_addAll start d.nodes
  have hlinksErrors : (addAll addLink bare d.links).2 = Verdict.errors links :=
    errors_addAll bare d.links
  refine ⟨nodes, links, ?_⟩
  constructor
  case decl_nodes => exact hnodesDecl
  case decl_links => exact hlinksDecl
  case node_right => exact fun before v after => right_of_verdicts_addNode
  case link_right => exact fun v => right_of_verdicts_addLink hbare hids
  case errors_eq =>
    rw [← hnodesErrors, ← hlinksErrors]
    rfl
  case built => exact hbuilt
  case nodup_ids => exact hsound.nodup_ids
  case targets => exact forall₂_targets hids hlinks
  case target_lt =>
    intro p t ht
    obtain ⟨l, hl, htarget⟩ := List.mem_filterMap.1 ht
    split at htarget
    · cases htarget
      obtain ⟨n, hn, hport⟩ := hsound.target l hl
      exact ⟨n, hn, by rwa [(hsound.fits _ n hn).inputs] at hport⟩
    · cases htarget
  case size_nodes =>
    rw [← Array.length_toList, ← hbuilt.length_eq, Verdict.length_kept_add_errors, ← hnodesDecl,
      List.length_map]
  case length_links =>
    rw [← hlinks.length_eq, Verdict.length_kept_add_errors, ← hlinksDecl, List.length_map]
  case rebuilt =>
    -- the declarations kept are all added again, one after the other
    have hnodes : addAll addNode start (Verdict.kept nodes) = (bare, []) :=
      addAll_kept start d.nodes
    have hlinks : addAll addLink bare (Verdict.kept links) = ((build d).1, []) :=
      addAll_kept bare d.links
    exact build_eq_of_addAll
      (d := { d with nodes := Verdict.kept nodes, links := Verdict.kept links }) hnodes hlinks

end Graph

end SignalGraph
