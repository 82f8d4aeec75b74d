import SignalGraph.Proofs.Config.Encoded
import SignalGraph.Proofs.Json.Spelling

/-!
# Configurations in JSON text

Every text of every document that writes a configuration is decoded to it
(`Configuration.ofJson_of_spelled`): the fields of a record in any order, those with their default
left out and unknown ones added, or as an array; blanks between the tokens; each string with any
escapes. A configuration without floating-point numbers that is not nested too deeply has such a
text in both styles of the encoder (`Configuration.exists_spelled`).
-/

namespace SignalGraph

/-- A configuration is decoded from each text of each document that writes it. -/
theorem Configuration.ofJson_of_spelled {c : Configuration} {d : Document} {cs : List Char}
    (hc : c.WellFormed) (hd : c.Written d) (hcs : Json.Spelled Json.maxDepth d cs) :
    Configuration.ofJson (String.ofList cs) = .ok c := by
  rw [ofJson, Json.read?, String.toList_ofList, hcs.readChars?, Option.bind_some,
    hd.ofDocument? hc, orError]

/-- A textual configuration has a text in both styles of the encoder. -/
theorem Configuration.exists_spelled {c : Configuration} (style : RecordStyle) (hc : c.WellFormed)
    (htextual : Json.Textual (c.toDocument style))
    (hdepth : (c.toDocument style).depth ≤ Json.maxDepth) :
    ∃ cs, c.Written (c.toDocument style) ∧ Json.Spelled Json.maxDepth (c.toDocument style) cs := by
  obtain ⟨cs, hcs⟩ := Json.exists_spelled htextual (c.numbersFit_toDocument style hc.1) hdepth
  exact ⟨cs, Configuration.written_toDocument style rfl (.refl _), hcs⟩

namespace Configuration

open Document Json

/-- A node with a parameter, in a graph that is otherwise left at its defaults. -/
def sampleGraph : GraphDecl :=
  { id := "g", nodes := [{ id := "A", typeName := "not", params := [("k", .int (-5))] }] }

/-- The node as an array and the graph as a map with its fields in another order. -/
def sampleGraphDocument : Document :=
  .map [(.text "nodes",
      .array [.array [.text "A", .text "not", .bool true, .map [(.text "k", .signed (-5))]]]),
    (.text "id", .text "g")]

theorem written_sampleGraphDocument : sampleGraph.Written sampleGraphDocument := by
  have hrecord : Record ["id", "type", "enabled", "params"]
      ([.text "A", .text "not", .bool true, .map [(.text "k", .signed (-5))]].map some)
      (.array [.text "A", .text "not", .bool true, .map [(.text "k", .signed (-5))]]) := .array rfl
  have hnode : NodeDecl.Written { id := "A", typeName := "not", params := [("k", .int (-5))] }
      (.array [.text "A", .text "not", .bool true, .map [(.text "k", .signed (-5))]]) :=
    ⟨_, _, .written rfl, .written (.object (.refl _) (.cons "k" (.signed (-5)) .nil)), hrecord⟩
  exact ⟨none, some _, none, .omitted rfl, .written (.intro (.cons hnode .nil)), .omitted rfl,
    .map (by simp) (by simp [valuesUnder, sampleGraph])⟩

/-- An unknown field with half of a surrogate pair, an escaped letter and a blank in front. -/
theorem ofJson_of_spelled_sample :
    Configuration.ofJson
      (" \x7b\"x\":[1.5e3 ,\"\\ud800\"],\"graphs\":[\x7b\"nodes\":[[\"\\u0041\",\"not\",true," ++
        "\x7b\"k\":-5\x7d]],\"id\":\"g\"\x7d]\x7d") = .ok { graphs := [sampleGraph] } := by
  obtain ⟨number, hnumber⟩ := exists_number? (show isNumber ['1', '.', '5', 'e', '3'] = true by rfl)
  -- half of a surrogate pair is no text, but the key `x` is unknown and its value is not decoded
  have hhalf : ['\\', 'u', 'd', '8', '0', '0'].foldlM OpenString.next? .start =
      some ⟨[], .none, some 0xD800, true⟩ := rfl
  have hextra : Spelled 126 (.array [number, .invalid]) _ :=
    .array (.more (.after (c := ' ') rfl (.number hnumber)) (.last (.string hhalf rfl)))
  -- an escape in the id of the node, whose fields are given in order
  have hunit : SpelledUnit 65 ['0', '0', '4', '1'] :=
    .intro (show hexValue? '0' = some 0 by rfl) (show hexValue? '0' = some 0 by rfl)
      (show hexValue? '4' = some 4 by rfl) (show hexValue? '1' = some 1 by rfl)
  have hA : SpelledChars "A".toList _ := .cons (c := 'A') (.unit hunit) .nil
  have hquote : ∀ (s : String) (depth : Nat), Spelled depth (.text s) (quote s) := fun s depth =>
    .text (spelledChars_flatMap_escapeChar s.toList)
  have hparams : Spelled 122 (.map [(.text "k", .signed (-5))]) _ :=
    .object (.last (spelledName_quote "k") (.signed (n := 5) (by decide) (by decide)))
  have hnodes : Spelled 124 (.array [.array _]) _ :=
    .array (.last (.array (.more (.text hA) (.more (hquote "not" _)
      (.more .true (.last hparams))))))
  have hgraph : Spelled 125 sampleGraphDocument _ :=
    .object (.more (spelledName_quote "nodes") hnodes
      (.last (spelledName_quote "id") (hquote "g" _)))
  have htext : Spelled maxDepth (.map [(.text "x", _), (.text "graphs", _)]) _ :=
    .before (c := ' ') rfl (.object (.more (spelledName_quote "x") hextra
      (.last (spelledName_quote "graphs") (.array (.last hgraph)))))
  have hwritten : Configuration.Written { graphs := [sampleGraph] }
      (.map [(.text "x", .array [number, .invalid]),
        (.text "graphs", .array [sampleGraphDocument])]) :=
    ⟨some _, none, .written (.intro (.cons written_sampleGraphDocument .nil)), .omitted rfl,
      .map (by simp) (by simp [valuesUnder])⟩
  have hdecoded := ofJson_of_spelled (by decide) hwritten htext
  refine (congrArg ofJson ?_).trans hdecoded
  decide +kernel

end Configuration

end SignalGraph
