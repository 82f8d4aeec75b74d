import Mathlib.Logic.Function.Basic
import SignalGraph.Config.Decoding
import SignalGraph.Proofs.Dictionary

/-!
# The documents that write a configuration

A configuration can be written in many ways: each record as a map, its fields in any order among
unknown ones, the ones that have their default left out, or as an array of all its fields; the
scenes and the members of objects in any order. `Configuration.Written` is the relation of a
configuration and the documents that write it. Each of them is decoded to the configuration, in
either format (`Configuration.Written.ofDocument?`).
-/

namespace SignalGraph

/-! ### JSON values that can be held -/

mutual

/-- Whether whole numbers have 64 bits, with or without a sign, other numbers are finite, and the
names of each object increase. -/
def Json.WellFormed : Json → Prop
  | .int i => -2 ^ 63 ≤ i ∧ i < 2 ^ 64
  | .float x => x.isFinite
  | .array items => Json.ItemsWellFormed items
  | .object members => Dictionary.Sorted members ∧ Json.MembersWellFormed members
  | .null | .bool _ | .str _ => True

/-- Whether all values of a list are well formed. -/
def Json.ItemsWellFormed : List Json → Prop
  | [] => True
  | j :: js => j.WellFormed ∧ Json.ItemsWellFormed js

/-- Whether the values of all members are well formed. -/
def Json.MembersWellFormed : List (String × Json) → Prop
  | [] => True
  | (_, j) :: rest => j.WellFormed ∧ Json.MembersWellFormed rest

end

instance {α : Type} (d : Dictionary α) : Decidable d.Sorted :=
  inferInstanceAs (Decidable (d.Pairwise fun a b => a.1 < b.1))

mutual

instance Json.decidableWellFormed : (j : Json) → Decidable j.WellFormed
  | .int i => inferInstanceAs (Decidable (-2 ^ 63 ≤ i ∧ i < 2 ^ 64))
  | .float x => inferInstanceAs (Decidable (x.isFinite = true))
  | .array items => Json.decidableItemsWellFormed items
  | .object members =>
    have := Json.decidableMembersWellFormed members
    inferInstanceAs (Decidable (Dictionary.Sorted members ∧ Json.MembersWellFormed members))
  | .null | .bool _ | .str _ => isTrue trivial

instance Json.decidableItemsWellFormed : (js : List Json) → Decidable (Json.ItemsWellFormed js)
  | [] => isTrue trivial
  | j :: js =>
    have := Json.decidableWellFormed j
    have := Json.decidableItemsWellFormed js
    inferInstanceAs (Decidable (j.WellFormed ∧ Json.ItemsWellFormed js))

instance Json.decidableMembersWellFormed :
    (members : List (String × Json)) → Decidable (Json.MembersWellFormed members)
  | [] => isTrue trivial
  | (_, j) :: rest =>
    have := Json.decidableWellFormed j
    have := Json.decidableMembersWellFormed rest
    inferInstanceAs (Decidable (j.WellFormed ∧ Json.MembersWellFormed rest))

end

theorem Json.membersWellFormed_iff {members : List (String × Json)} :
    Json.MembersWellFormed members ↔ ∀ member ∈ members, member.2.WellFormed := by
  induction members with
  | nil => simp [Json.MembersWellFormed]
  | cons member rest ih => simp [Json.MembersWellFormed, ih]

/-- The order of the members makes no difference. -/
theorem Json.MembersWellFormed.of_perm {members entries : List (String × Json)}
    (h : Json.MembersWellFormed members) (order : entries.Perm members) :
    Json.MembersWellFormed entries :=
  membersWellFormed_iff.2 fun member hmember =>
    membersWellFormed_iff.1 h member (order.mem_iff.1 hmember)

/-! ### How JSON values are written -/

mutual

/-- Whether a document writes a JSON value, the members of its objects in any order. -/
inductive Json.Written : Json → Document → Prop
  | null : Json.Written .null .null
  | bool (b : Bool) : Json.Written (.bool b) (.bool b)
  | unsigned (n : Nat) : Json.Written (.int n) (.unsigned n)
  | signed (i : Int) : Json.Written (.int i) (.signed i)
  | float (x : Float) : Json.Written (.float x) (.float x)
  | str (s : String) : Json.Written (.str s) (.text s)
  | array {js : List Json} {ds : List Document} (items : Json.ItemsWritten js ds) :
      Json.Written (.array js) (.array ds)
  | object {members entries : List (String × Json)} {ms : List (Document × Document)}
      (order : entries.Perm members) (written : Json.MembersWritten entries ms) :
      Json.Written (.object members) (.map ms)

/-- Whether documents write JSON values, one by one. -/
inductive Json.ItemsWritten : List Json → List Document → Prop
  | nil : Json.ItemsWritten [] []
  | cons {j : Json} {d : Document} {js : List Json} {ds : List Document} (head : j.Written d)
      (tail : Json.ItemsWritten js ds) : Json.ItemsWritten (j :: js) (d :: ds)

/-- Whether members of a map write the members of an object, one by one. -/
inductive Json.MembersWritten : List (String × Json) → List (Document × Document) → Prop
  | nil : Json.MembersWritten [] []
  | cons {j : Json} {d : Document} {rest : List (String × Json)}
      {ms : List (Document × Document)} (name : String) (head : j.Written d)
      (tail : Json.MembersWritten rest ms) :
      Json.MembersWritten ((name, j) :: rest) ((.text name, d) :: ms)

end

/-- Written members have no other names than texts, so they make an object. -/
theorem Json.MembersWritten.objectOfDocuments? {entries : List (String × Json)}
    {ms : List (Document × Document)} (h : Json.MembersWritten entries ms) :
    Json.objectOfDocuments? ms =
      (Json.membersOfDocuments? ms).map fun members => .object (Dictionary.ofList members) := by
  cases h with
  | nil => rfl
  | @cons j d rest ms name head tail =>
    simp only [Json.objectOfDocuments?, Json.membersOfDocuments?, Document.text?]
    cases Json.ofDocument? d <;> cases Json.membersOfDocuments? ms <;> rfl

mutual

/-- A document that writes a well-formed JSON value has that value. -/
theorem Json.Written.ofDocument? {j : Json} {d : Document} (h : j.Written d) (hj : j.WellFormed) :
    Json.ofDocument? d = some j := by
  cases h with
  | null | bool | unsigned | signed | str => simp only [Json.ofDocument?]
  | float x =>
    have hfinite : x.isFinite = true := hj
    simp only [Json.ofDocument?, hfinite, if_true]
  | array items =>
    simp only [Json.ofDocument?, items.itemsOfDocuments? hj, Option.map_some]
  | @object members entries ms order written =>
    obtain ⟨hsorted, hmembers⟩ := hj
    have hentries : Json.MembersWellFormed entries := hmembers.of_perm order
    simp only [Json.ofDocument?, written.objectOfDocuments?, written.membersOfDocuments? hentries,
      Option.map_some, Dictionary.ofList_eq_of_perm hsorted order]

/-- What is written of items is read as the items. -/
theorem Json.ItemsWritten.itemsOfDocuments? {js : List Json} {ds : List Document}
    (h : Json.ItemsWritten js ds) (hjs : Json.ItemsWellFormed js) :
    Json.itemsOfDocuments? ds = some js := by
  cases h with
  | nil => rfl
  | cons head tail =>
    simp only [Json.itemsOfDocuments?, head.ofDocument? hjs.1, tail.itemsOfDocuments? hjs.2]

theorem Json.MembersWritten.membersOfDocuments? {entries : List (String × Json)}
    {ms : List (Document × Document)} (h : Json.MembersWritten entries ms)
    (hentries : Json.MembersWellFormed entries) :
    Json.membersOfDocuments? ms = some entries := by
  cases h with
  | nil => rfl
  | cons name head tail =>
    simp only [Json.membersOfDocuments?, Document.text?, head.ofDocument? hentries.1,
      tail.membersOfDocuments? hentries.2]

end

/-! ### How records are written -/

namespace Document

variable {names : List String} {fields : List (Option Document)} {d : Document}

/-- The values of the members with a name. -/
def valuesUnder (name : String) (members : List (Document × Document)) : List Document :=
  members.filterMap fun
    | (.text s, value) => if s = name then some value else none
    | _ => none

/-- Whether a document is a record of fields with these names: a map that has each field at most
once and may have members with other names, or an array of all fields. -/
inductive Record (names : List String) : List (Option Document) → Document → Prop
  | map {members : List (Document × Document)} {fields : List (Option Document)}
      (texts : ∀ member ∈ members, ∃ s, member.1 = .text s)
      (values : List.Forall₂ (fun name field => valuesUnder name members = field.toList)
        names fields) :
      Record names fields (.map members)
  | array {items : List Document} (complete : items.length = names.length) :
      Record names (items.map some) (.array items)

/-- The first value under the name of a field is taken. -/
theorem addField_of_mem {known : String → Option Document} {s : String} {value : Document}
    (hnodup : names.Nodup) (hmem : s ∈ names) (hknown : known s = none) :
    addField names (names.map known) (.text s, value) =
      some (names.map (Function.update known s (some value))) := by
  obtain ⟨i, hi⟩ : ∃ i, names.findIdx? (· == s) = some i := by
    rw [← Option.isSome_iff_exists, List.findIdx?_isSome, List.any_eq_true]
    exact ⟨s, hmem, beq_self_eq_true s⟩
  obtain ⟨hlt, hname, -⟩ := List.findIdx?_eq_some_iff_getElem.1 hi
  have hname : names[i] = s := eq_of_beq hname
  -- the field has no value yet, so this is no second one
  have hvacant : (names.map known)[i]? = some none := by
    rw [List.getElem?_map, List.getElem?_eq_getElem hlt, hname, Option.map_some, hknown]
  simp only [addField, field?, hi, hvacant]
  congr 1
  apply List.ext_getElem (by simp)
  intro j hj _
  have hj : j < names.length := by simpa using hj
  by_cases hij : i = j
  · subst hij
    simp [hname]
  · have hne : names[j] ≠ s := fun heq =>
      hij ((hnodup.getElem_inj_iff).1 (hname.trans heq.symm))
    simp [List.getElem_set_ne hij, hne]

/-- A value under any other name is passed over. -/
theorem addField_of_not_mem {known : List (Option Document)} {s : String} {value : Document}
    (hmem : s ∉ names) : addField names known (.text s, value) = some known := by
  have hnone : names.findIdx? (· == s) = none := by
    rw [List.findIdx?_eq_none_iff]
    exact fun name hname => beq_false_of_ne fun heq => hmem (heq ▸ hname)
  simp only [addField, field?, hnone]

/-- Members that have no field twice, also counting the fields known before, are all taken. -/
theorem foldlM_addField (hnodup : names.Nodup) {members : List (Document × Document)}
    (texts : ∀ member ∈ members, ∃ s, member.1 = .text s) {known : String → Option Document}
    (honce : ∀ name ∈ names, ((known name).toList ++ valuesUnder name members).length ≤ 1) :
    members.foldlM (addField names) (names.map known) =
      some (names.map fun name => (known name).or (valuesUnder name members).head?) := by
  induction members generalizing known with
  | nil => simp [valuesUnder]
  | cons member rest ih =>
    obtain ⟨key, value⟩ := member
    obtain ⟨s, hs⟩ := texts _ List.mem_cons_self
    cases hs
    have hrest : ∀ member ∈ rest, ∃ s, member.1 = .text s :=
      fun member hmember => texts member (List.mem_cons_of_mem _ hmember)
    rw [List.foldlM_cons]
    by_cases hmem : s ∈ names
    -- a field that is known already would be written twice
    · have hknown : known s = none := by
        have hlength := honce s hmem
        cases hk : known s with
        | none => rfl
        | some d => simp [hk, valuesUnder] at hlength
      rw [addField_of_mem hnodup hmem hknown, Option.bind_eq_bind, Option.bind_some,
        ih hrest ?once]
      case once =>
        intro name hname
        have hlength := honce name hname
        by_cases heq : s = name
        · subst heq
          simpa [hknown, valuesUnder] using hlength
        · simpa [Function.update_of_ne (Ne.symm heq), valuesUnder, heq] using hlength
      congr 1
      refine List.map_congr_left fun name _ => ?_
      by_cases heq : s = name
      · subst heq
        simp [hknown, valuesUnder]
      · simp [Function.update_of_ne (Ne.symm heq), valuesUnder, heq]
    -- a member that is no field is under none of their names
    · have hskip : ∀ name ∈ names,
          valuesUnder name ((.text s, value) :: rest) = valuesUnder name rest := by
        intro name hname
        have hne : s ≠ name := fun heq => hmem (heq ▸ hname)
        simp [valuesUnder, hne]
      rw [addField_of_not_mem hmem, Option.bind_eq_bind, Option.bind_some, ih hrest ?once]
      case once =>
        intro name hname
        rw [← hskip name hname]
        exact honce name hname
      congr 1
      refine List.map_congr_left fun name hname => ?_
      rw [hskip name hname]

/-- The fields of a record are what the decoder finds in it. -/
theorem Record.record? (h : Record names fields d) (hnodup : names.Nodup) :
    record? names d = some fields := by
  cases h with
  | @map members fields texts values =>
    -- a field is the first value under its name; the names are distinct, so the fold finds it
    have hfields : fields = names.map fun name => (valuesUnder name members).head? := by
      clear hnodup texts
      induction values with
      | nil => rfl
      | @cons name field names fields hvalue _ ih =>
        rw [List.map_cons, ← ih, hvalue]
        cases field <;> rfl
    have honce : ∀ name ∈ names,
        ((none : Option Document).toList ++ valuesUnder name members).length ≤ 1 := by
      -- the names shrink along the induction, and these speak of all of them
      clear hnodup hfields texts
      induction values with
      | nil => simp
      | @cons name field names fields hvalue _ ih =>
        intro other hother
        rcases List.mem_cons.1 hother with rfl | hother
        · rw [hvalue]
          cases field <;> simp
        · exact ih other hother
    have hfold := @foldlM_addField names hnodup members texts (fun _ => none) honce
    simpa only [Document.record?, Option.none_or, ← hfields] using hfold
  | array complete =>
    simp [Document.record?, items?, inOrder?, complete]

/-! ### How fields are written -/

/-- Whether a field with a default is written so: left out only if it has its default. -/
inductive Field {α : Type} (default : α) (writes : α → Document → Prop) (a : α) :
    Option Document → Prop
  | written {d : Document} (h : writes a d) : Field default writes a (some d)
  | omitted (h : a = default) : Field default writes a none

/-- Whether a document is an array that writes a list, item by item. -/
inductive ListOf {α : Type} (writes : α → Document → Prop) (as : List α) : Document → Prop
  | intro {ds : List Document} (items : List.Forall₂ writes as ds) : ListOf writes as (.array ds)

/-- Whether a document is a map of texts that writes a dictionary, its entries in any order. -/
inductive TextsOf (texts : Dictionary String) : Document → Prop
  | intro {entries : List (String × String)} (order : entries.Perm texts) :
      TextsOf texts (.map (entries.map fun (key, value) => (.text key, .text value)))

variable {α : Type} {default a : α} {writes : α → Document → Prop} {decode : Document → Option α}

/-- What is written of a field, or left out for its default, is read as the field. -/
theorem Field.orDefault {field : Option Document} (h : Field default writes a field)
    (hdecode : ∀ d, writes a d → decode d = some a) : orDefault default decode field = some a := by
  cases h with
  | written h => exact hdecode _ h
  | omitted h => rw [h]; rfl

/-- What is written of a list is read as the list. -/
theorem ListOf.listOf? {as : List α} {d : Document} (h : ListOf writes as d)
    (hdecode : ∀ a ∈ as, ∀ d, writes a d → decode d = some a) : listOf? decode d = some as := by
  obtain ⟨items⟩ := h
  rw [Document.listOf?, items?, Option.bind_some]
  induction items with
  | nil => rfl
  | @cons a d as ds head _ ih =>
    have htail := ih fun a ha => hdecode a (List.mem_cons_of_mem _ ha)
    rw [List.mapM_cons, hdecode a List.mem_cons_self d head, htail]
    rfl

/-- What is written of a dictionary, in any order, is read as the dictionary. -/
theorem TextsOf.textDictionary? {texts : Dictionary String} {d : Document}
    (h : TextsOf texts d) (hsorted : texts.Sorted) : textDictionary? d = some texts := by
  obtain ⟨order⟩ := h
  rename_i entries
  have hentries : textEntries? (entries.map fun (key, value) => (.text key, .text value)) =
      some entries := by
    clear order
    induction entries with
    | nil => rfl
    | cons entry rest ih =>
      rw [textEntries?] at ih
      rw [textEntries?, List.map_cons, List.mapM_cons, ih]
      rfl
  rw [Document.textDictionary?, hentries, Option.map_some,
    Dictionary.ofList_eq_of_perm hsorted order]

end Document

open Document

/-! ### How configurations are written -/

/-- Whether a document writes an endpoint. -/
def Endpoint.Written (e : Endpoint) (d : Document) : Prop :=
  Record ["node", "port"] [some (.text e.node), some (.text e.port)] d

/-- Whether a document writes a link. -/
def LinkDecl.Written (l : LinkDecl) (d : Document) : Prop :=
  ∃ source target, l.source.Written source ∧ l.target.Written target ∧
    Record ["from", "to"] [some source, some target] d

/-- Whether a document writes a node. -/
def NodeDecl.Written (n : NodeDecl) (d : Document) : Prop :=
  ∃ enabled params, Field true (fun b d => d = .bool b) n.enabled enabled ∧
    Field [] (fun members d => (Json.object members).Written d) n.params params ∧
    Record ["id", "type", "enabled", "params"]
      [some (.text n.id), some (.text n.typeName), enabled, params] d

/-- Whether a document writes a graph. -/
def GraphDecl.Written (g : GraphDecl) (d : Document) : Prop :=
  ∃ enabled nodes links, Field true (fun b d => d = .bool b) g.enabled enabled ∧
    Field [] (ListOf NodeDecl.Written) g.nodes nodes ∧
    Field [] (ListOf LinkDecl.Written) g.links links ∧
    Record ["id", "enabled", "nodes", "links"] [some (.text g.id), enabled, nodes, links] d

/-- Whether a document writes a configuration. -/
def Configuration.Written (c : Configuration) (d : Document) : Prop :=
  ∃ graphs scenes, Field [] (ListOf GraphDecl.Written) c.graphs graphs ∧
    Field [] TextsOf c.scenes scenes ∧ Record ["graphs", "scene_map"] [graphs, scenes] d

/-- Whether all parameters are well-formed JSON values and the keys of each dictionary increase. -/
def Configuration.WellFormed (c : Configuration) : Prop :=
  (∀ g ∈ c.graphs, ∀ n ∈ g.nodes, (Json.object n.params).WellFormed) ∧ c.scenes.Sorted

instance (c : Configuration) : Decidable c.WellFormed :=
  inferInstanceAs (Decidable ((∀ g ∈ c.graphs, ∀ n ∈ g.nodes, (Json.object n.params).WellFormed) ∧
    c.scenes.Sorted))

variable {format : Format} {d : Document}

/-- What is written of an end of a link is read as that end. -/
theorem Endpoint.Written.ofDocument? {e : Endpoint} (h : e.Written d) :
    Endpoint.ofDocument? d = some e := by
  have hrecord := h.record? (by decide)
  simp [Endpoint.ofDocument?, hrecord, required, text?]

theorem LinkDecl.Written.ofDocument? {l : LinkDecl} (h : l.Written d) :
    LinkDecl.ofDocument? d = some l := by
  obtain ⟨source, target, hsource, htarget, h⟩ := h
  have hrecord := h.record? (by decide)
  simp [LinkDecl.ofDocument?, hrecord, required, hsource.ofDocument?, htarget.ofDocument?]

theorem Json.Written.paramTable? {members : List (String × Json)}
    (h : (Json.object members).Written d) (hmembers : (Json.object members).WellFormed) :
    paramTable? format d = some members := by
  obtain ⟨hsorted, hmembers⟩ := hmembers
  cases h with
  | @object _ entries ms order written =>
    have hentries : Json.MembersWellFormed entries := hmembers.of_perm order
    rw [Document.paramTable?, written.membersOfDocuments? hentries, Option.map_some,
      Dictionary.ofList_eq_of_perm hsorted order]

/-- What is written of a node is read as the node. -/
theorem NodeDecl.Written.ofDocument? {n : NodeDecl} (h : n.Written d)
    (hn : (Json.object n.params).WellFormed) : NodeDecl.ofDocument? format d = some n := by
  obtain ⟨enabled, params, henabled, hparams, h⟩ := h
  have hrecord := h.record? (by decide)
  have henabled' : orDefault true bool? enabled = some n.enabled :=
    henabled.orDefault fun d hd => by rw [hd]; rfl
  have hparams' : orDefault [] (paramTable? format) params = some n.params :=
    hparams.orDefault fun d hd => hd.paramTable? hn
  simp [NodeDecl.ofDocument?, hrecord, required, text?, henabled', hparams']

theorem GraphDecl.Written.ofDocument? {g : GraphDecl} (h : g.Written d)
    (hg : ∀ n ∈ g.nodes, (Json.object n.params).WellFormed) :
    GraphDecl.ofDocument? format d = some g := by
  obtain ⟨enabled, nodes, links, henabled, hnodes, hlinks, h⟩ := h
  have hrecord := h.record? (by decide)
  have henabled' : orDefault true bool? enabled = some g.enabled :=
    henabled.orDefault fun d hd => by rw [hd]; rfl
  have hnodes' : orDefault [] (listOf? (NodeDecl.ofDocument? format)) nodes = some g.nodes :=
    hnodes.orDefault fun d hd => hd.listOf? fun n hn d h => h.ofDocument? (hg n hn)
  have hlinks' : orDefault [] (listOf? LinkDecl.ofDocument?) links = some g.links :=
    hlinks.orDefault fun d hd => hd.listOf? fun l _ d h => h.ofDocument?
  simp [GraphDecl.ofDocument?, hrecord, required, text?, henabled', hnodes', hlinks']

/-- In either format, a document that writes a well-formed configuration is decoded to it. -/
theorem Configuration.Written.ofDocument? {c : Configuration} (h : c.Written d)
    (hc : c.WellFormed) : Configuration.ofDocument? format d = some c := by
  obtain ⟨hparams, hscenes⟩ := hc
  obtain ⟨graphs, scenes, hgraphs, hscenes', h⟩ := h
  have hrecord := h.record? (by decide)
  have hgraphs' : orDefault [] (listOf? (GraphDecl.ofDocument? format)) graphs = some c.graphs :=
    hgraphs.orDefault fun d hd => hd.listOf? fun g hg d h => h.ofDocument? (hparams g hg)
  have hscenes' : orDefault [] textDictionary? scenes = some c.scenes :=
    hscenes'.orDefault fun d hd => hd.textDictionary? hscenes
  simp [Configuration.ofDocument?, hrecord, hgraphs', hscenes']

end SignalGraph
