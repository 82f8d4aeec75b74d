import SignalGraph.Config.Encoding
import SignalGraph.Proofs.Config.Written
import SignalGraph.Proofs.MessagePack.RoundTrip

/-!
# Encoded configurations

The encoder writes a configuration, with records as maps or as arrays
(`Configuration.written_toDocument`), and all its numbers have a form. So the bytes of a
configuration, followed by anything, are decoded to it
(`Configuration.ofMessagePack_toMessagePack`).
-/

namespace SignalGraph

/-! ### What the encoder writes -/

mutual

/-- The document of a JSON value writes it. -/
theorem Json.written_toDocument : ∀ j : Json, j.Written j.toDocument
  | .null => .null
  | .bool b => .bool b
  | .int i => by
    unfold Json.toDocument
    split
    · exact .signed i
    · next hi =>
      have hwritten := Json.Written.unsigned i.toNat
      rwa [Int.toNat_of_nonneg (Int.not_lt.1 hi)] at hwritten
  | .float x => .float x
  | .str s => .str s
  | .array items => .array (Json.itemsWritten_itemsToDocuments items)
  | .object members => .object (.refl _) (Json.membersWritten_membersToDocuments members)

theorem Json.itemsWritten_itemsToDocuments :
    ∀ js : List Json, Json.ItemsWritten js (Json.itemsToDocuments js)
  | [] => .nil
  | j :: js => .cons (Json.written_toDocument j) (Json.itemsWritten_itemsToDocuments js)

theorem Json.membersWritten_membersToDocuments :
    ∀ members : List (String × Json),
      Json.MembersWritten members (Json.membersToDocuments members)
  | [] => .nil
  | (name, j) :: rest =>
    .cons name (Json.written_toDocument j) (Json.membersWritten_membersToDocuments rest)

end

namespace Document

/-- A name that is not written has no values. -/
theorem valuesUnder_of_not_mem {written : List (String × Document)} {name : String}
    (hmem : name ∉ written.map Prod.fst) :
    valuesUnder name (written.map fun (name, d) => (.text name, d)) = [] := by
  simp only [valuesUnder, List.filterMap_map, List.filterMap_eq_nil_iff]
  rintro ⟨other, d⟩ hother
  have hne : other ≠ name := fun heq => hmem (List.mem_map.2 ⟨_, hother, heq⟩)
  exact if_neg hne

/-- A name that is written once has its value alone. -/
theorem valuesUnder_of_mem {written : List (String × Document)} {name : String} {d : Document}
    (hnodup : (written.map Prod.fst).Nodup) (hmem : (name, d) ∈ written) :
    valuesUnder name (written.map fun (name, d) => (.text name, d)) = [d] := by
  induction written with
  | nil => cases hmem
  | cons field rest ih =>
    obtain ⟨hnew, hrest⟩ := List.nodup_cons.1 hnodup
    rcases List.mem_cons.1 hmem with rfl | hmem
    · have hnone := valuesUnder_of_not_mem hnew
      simp only [valuesUnder] at hnone ⊢
      simp [hnone]
    · have hne : field.1 ≠ name := fun heq => hnew (heq ▸ List.mem_map_of_mem hmem)
      have hvalues := ih hrest hmem
      simp only [valuesUnder] at hvalues ⊢
      simp [hne, hvalues]

/-- The encoder writes a record in both styles. -/
theorem record_record (style : RecordStyle) (written : List (String × Document))
    (hnodup : (written.map Prod.fst).Nodup) :
    Record (written.map Prod.fst) (written.map fun field => some field.2)
      (style.record written) := by
  cases style with
  | named =>
    refine .map ?texts ?values
    case texts =>
      intro member hmember
      obtain ⟨field, -, rfl⟩ := List.mem_map.1 hmember
      exact ⟨field.1, rfl⟩
    case values =>
      rw [List.forall₂_map_left_iff, List.forall₂_map_right_iff, List.forall₂_same]
      exact fun field hmem => valuesUnder_of_mem hnodup hmem
  | compact =>
    have harray : Record (written.map Prod.fst) ((written.map Prod.snd).map some)
        (.array (written.map Prod.snd)) := .array (by simp)
    rwa [List.map_map] at harray

end Document

open Document

theorem Document.ListOf.map {α : Type} {writes : α → Document → Prop} {encode : α → Document}
    (h : ∀ a, writes a (encode a)) (as : List α) : ListOf writes as (.array (as.map encode)) :=
  .intro (List.forall₂_map_right_iff.2 (List.forall₂_same.2 fun a _ => h a))

variable (style : RecordStyle)

/-- What is written of an end of a link is read as that end, and so on up to the configuration. -/
theorem Endpoint.written_toDocument (e : Endpoint) : e.Written (e.toDocument style) :=
  record_record style [("node", .text e.node), ("port", .text e.port)] (by simp)

theorem LinkDecl.written_toDocument (l : LinkDecl) : l.Written (l.toDocument style) :=
  ⟨_, _, l.source.written_toDocument style, l.target.written_toDocument style,
    record_record style [("from", _), ("to", _)] (by simp)⟩

theorem NodeDecl.written_toDocument (n : NodeDecl) : n.Written (n.toDocument style) :=
  ⟨_, _, .written rfl, .written (Json.written_toDocument (.object n.params)),
    record_record style [("id", _), ("type", _), ("enabled", _), ("params", _)] (by simp)⟩

theorem GraphDecl.written_toDocument (g : GraphDecl) : g.Written (g.toDocument style) :=
  ⟨_, _, _, .written rfl, .written (.map (NodeDecl.written_toDocument style) g.nodes),
    .written (.map (LinkDecl.written_toDocument style) g.links),
    record_record style [("id", _), ("enabled", _), ("nodes", _), ("links", _)] (by simp)⟩

/-- The encoder, which takes the scenes in some order, writes the configuration. -/
theorem Configuration.written_toDocument {c c' : Configuration} (hgraphs : c'.graphs = c.graphs)
    (hscenes : c'.scenes.Perm c.scenes) : c.Written (c'.toDocument style) :=
  ⟨_, _, .written (hgraphs ▸ .map (GraphDecl.written_toDocument style) c'.graphs),
    .written (.intro hscenes), record_record style [("graphs", _), ("scene_map", _)] (by simp)⟩

/-! ### The numbers of an encoded configuration -/

/-- Nothing but the fields of a record matters for its numbers. -/
theorem Document.numbersFit_record (style : RecordStyle) {fields : List (String × Document)}
    (h : ∀ field ∈ fields, field.2.NumbersFit) : (style.record fields).NumbersFit := by
  cases style with
  | named =>
    refine membersFit_iff.2 fun m hm => ?_
    obtain ⟨field, hfield, rfl⟩ := List.mem_map.1 hm
    exact ⟨trivial, h field hfield⟩
  | compact =>
    refine itemsFit_iff.2 fun d hd => ?_
    obtain ⟨field, hfield, rfl⟩ := List.mem_map.1 hd
    exact h field hfield

/-- The numbers of an array fit if those of its items do. -/
theorem Document.numbersFit_array_map {α : Type} {encode : α → Document} {as : List α}
    (h : ∀ a ∈ as, (encode a).NumbersFit) : (array (as.map encode)).NumbersFit := by
  refine itemsFit_iff.2 fun d hd => ?_
  obtain ⟨a, ha, rfl⟩ := List.mem_map.1 hd
  exact h a ha

mutual

/-- The numbers in well-formed parameters fit in 64 bits. -/
theorem Json.numbersFit_toDocument {j : Json} (h : j.WellFormed) : j.toDocument.NumbersFit := by
  cases j with
  | null | bool | str | float => trivial
  | int i =>
    obtain ⟨hmin, hmax⟩ := h
    unfold Json.toDocument
    split
    · next hneg => exact ⟨hmin, hneg⟩
    · exact show i.toNat < 2 ^ 64 by omega
  | array items => exact Json.itemsFit_itemsToDocuments h
  | object members => exact Json.membersFit_membersToDocuments h.2

theorem Json.itemsFit_itemsToDocuments {js : List Json} (h : Json.ItemsWellFormed js) :
    ItemsFit (Json.itemsToDocuments js) := by
  cases js with
  | nil => trivial
  | cons j js => exact ⟨Json.numbersFit_toDocument h.1, Json.itemsFit_itemsToDocuments h.2⟩

theorem Json.membersFit_membersToDocuments {members : List (String × Json)}
    (h : Json.MembersWellFormed members) : MembersFit (Json.membersToDocuments members) := by
  cases members with
  | nil => trivial
  | cons member rest =>
    exact ⟨trivial, Json.numbersFit_toDocument h.1, Json.membersFit_membersToDocuments h.2⟩

end

theorem Endpoint.numbersFit_toDocument (e : Endpoint) : (e.toDocument style).NumbersFit :=
  numbersFit_record style (by simp [NumbersFit])

theorem LinkDecl.numbersFit_toDocument (l : LinkDecl) : (l.toDocument style).NumbersFit :=
  numbersFit_record style (by simp [Endpoint.numbersFit_toDocument])

theorem NodeDecl.numbersFit_toDocument {n : NodeDecl} (h : (Json.object n.params).WellFormed) :
    (n.toDocument style).NumbersFit := by
  have hparams : (Document.map (Json.membersToDocuments n.params)).NumbersFit :=
    Json.membersFit_membersToDocuments h.2
  refine numbersFit_record style ?_
  simp only [List.forall_mem_cons, List.not_mem_nil, false_imp_iff, implies_true, and_true]
  exact ⟨trivial, trivial, trivial, hparams⟩

theorem GraphDecl.numbersFit_toDocument {g : GraphDecl}
    (h : ∀ n ∈ g.nodes, (Json.object n.params).WellFormed) : (g.toDocument style).NumbersFit := by
  have hnodes : (Document.array (g.nodes.map (NodeDecl.toDocument style))).NumbersFit :=
    numbersFit_array_map fun n hn => n.numbersFit_toDocument style (h n hn)
  have hlinks : (Document.array (g.links.map (LinkDecl.toDocument style))).NumbersFit :=
    numbersFit_array_map fun l _ => l.numbersFit_toDocument style
  refine numbersFit_record style ?_
  simp only [List.forall_mem_cons, List.not_mem_nil, false_imp_iff, implies_true, and_true]
  exact ⟨trivial, trivial, hnodes, hlinks⟩

/-- The numbers in the document of a configuration fit: there are none but in parameters. -/
theorem Configuration.numbersFit_toDocument {c : Configuration}
    (h : ∀ g ∈ c.graphs, ∀ n ∈ g.nodes, (Json.object n.params).WellFormed) :
    (c.toDocument style).NumbersFit := by
  have hgraphs : (Document.array (c.graphs.map (GraphDecl.toDocument style))).NumbersFit :=
    numbersFit_array_map fun g hg => g.numbersFit_toDocument style (h g hg)
  have hscenes : (Document.map
      (c.scenes.map fun entry => (.text entry.1, .text entry.2))).NumbersFit := by
    refine membersFit_iff.2 fun m hm => ?_
    obtain ⟨entry, -, rfl⟩ := List.mem_map.1 hm
    exact ⟨trivial, trivial⟩
  refine numbersFit_record style ?_
  simp only [List.forall_mem_cons, List.not_mem_nil, false_imp_iff, implies_true, and_true]
  exact ⟨hgraphs, hscenes⟩

/-! ### MessagePack bytes -/

/-- A configuration is decoded from its bytes and whatever follows them, with the records in either
style. The order `c'` in which the scenes are written does not matter. -/
theorem Configuration.ofMessagePack_toMessagePack {c c' : Configuration} (hc : c.WellFormed)
    (hgraphs : c'.graphs = c.graphs) (hscenes : c'.scenes.Perm c.scenes)
    (hlengths : (c'.toDocument style).LengthsBelow (2 ^ 32))
    (hdepth : (c'.toDocument style).depth ≤ MessagePack.maxDepth) (rest : List UInt8) :
    Configuration.ofMessagePack (c'.toMessagePack style ++ rest) = .ok c := by
  have hnumbers : (c'.toDocument style).NumbersFit :=
    c'.numbersFit_toDocument style (hgraphs ▸ hc.1)
  have hwritten : c.Written (c'.toDocument style) :=
    Configuration.written_toDocument style hgraphs hscenes
  rw [ofMessagePack, toMessagePack, MessagePack.read?_write hnumbers hlengths hdepth,
    Option.bind_some, hwritten.ofDocument? hc, orError]

/-- Nested parameters with numbers at the ends of their ranges, a link and two scenes. -/
def Configuration.sample : Configuration :=
  { graphs :=
      [{ id := "hall"
         nodes :=
          [{ id := "in"
             typeName := "dp_in"
             params := [("dp", .str "für"),
               ("x", .object [("a", .array [.null, .int (-2 ^ 63), .float 1.5]),
                 ("b", .int (2 ^ 64 - 1))])] }]
         links := [⟨⟨"in", "out"⟩, ⟨"in", "in"⟩⟩] }]
    scenes := [("day", "s1"), ("night", "s2")] }

/-- The same with its scenes in another order. -/
def Configuration.sampleReordered : Configuration :=
  { Configuration.sample with scenes := [("night", "s2"), ("day", "s1")] }

theorem Configuration.ofMessagePack_toMessagePack_sample :
    Configuration.ofMessagePack (sampleReordered.toMessagePack .compact ++ [0xC1]) =
      .ok sample :=
  Configuration.ofMessagePack_toMessagePack .compact (by decide +kernel) (by rfl) (by decide)
    (by decide +kernel) (by decide +kernel) [0xC1]

end SignalGraph
