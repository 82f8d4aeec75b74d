import SignalGraph.Proofs.Decimal.Numeral
import SignalGraph.Proofs.Decimal.Order
import SignalGraph.Proofs.Value.Same
import SignalGraph.Value.Cast

/-!
# What casts keep

No cast touches `null` or changes its own result. The automatic cast and the one to truth values
keep the truth value of what they are given, and the automatic one keeps the number that a text
writes (`Cast.stable`).

The automatic cast of a text and its truth value look at it in different ways: one compares the
trimmed text with two words and reads a number off the text as it is, the other puts it into lower
case, looks it up among fifteen words, and reads a number off the rest. They agree since no word is
a number, and a number is the same in lower case (`parseNumber?_of_lowered`), whatever the lower
case of characters outside ASCII is (`truthOfWord_of_lowered`).
-/

namespace SignalGraph

open Decimal

/-! ### Numbers in lower case -/

/-- Numbers may have a comma in place of the point. -/
def commaToPoint (c : Char) : Char :=
  if c = ',' then '.' else c

theorem toLower_commaToPoint (c : Char) : (commaToPoint c).toLower = commaToPoint c.toLower := by
  simp only [commaToPoint, toLower_eq_iff (c := c) (d := ',') (by decide)]
  split <;> rfl

/-- A finite number is read off the numeral that a trimmed text is. -/
theorem parseNumber?_eq (s : String) : parseNumber? s =
    ((Numeral.ofChars? ((Text.trimChars s.toList).map commaToPoint)).map
      Numeral.toFloat).filter Float.isFinite :=
  filter_floatOfChars? _

/-- A number has no foreign character. -/
theorem not_foreign_of_parseNumber? {s : String} {x : Float} (h : parseNumber? s = some x) :
    ∀ c ∈ Text.trimChars s.toList, ¬Text.Foreign c := by
  intro c hc hforeign
  rw [parseNumber?_eq, Option.filter_eq_some_iff, Option.map_eq_some_iff] at h
  obtain ⟨⟨n, hn, -⟩, -⟩ := h
  have hchar := Numeral.forall_isNumberChar_of_ofChars? hn _ (List.mem_map_of_mem hc)
  have hne : c ≠ ',' := by
    rintro rfl
    exact absurd hforeign (by unfold Text.Foreign; decide)
  rw [commaToPoint, if_neg hne] at hchar
  simp only [Json.isNumberChar, Bool.or_eq_true, isDigit_iff_toNat, beq_iff_eq] at hchar
  unfold Text.Foreign at hforeign
  rcases hchar with ((((hdigit | rfl) | rfl) | rfl) | rfl) | rfl
  · rcases hforeign with hfar | rfl
    · omega
    · exact absurd hdigit (by decide)
  all_goals exact absurd hforeign (by decide)

theorem parseNumber?_eq_none_of_foreign {s : String}
    (h : ∃ c ∈ Text.trimChars s.toList, Text.Foreign c) : parseNumber? s = none := by
  obtain ⟨c, hc, hforeign⟩ := h
  cases hparse : parseNumber? s with
  | none => rfl
  | some x => exact absurd hforeign (not_foreign_of_parseNumber? hparse c hc)

/-- The number that a text writes is the same in lower case. -/
theorem parseNumber?_of_lowered {s : String} {word : List Char} (h : Text.Lowered s.toList word) :
    parseNumber? (String.ofList word) = parseNumber? s := by
  rcases h.trimChars.eq_or_foreign with heq | ⟨hforeign, hforeign'⟩
  · rw [parseNumber?_eq, parseNumber?_eq, String.toList_ofList, heq, List.map_map,
      show commaToPoint ∘ Char.toLower = Char.toLower ∘ commaToPoint from
        funext fun c => (toLower_commaToPoint c).symm,
      ← List.map_map, Numeral.ofChars?_map_toLower]
  · rw [parseNumber?_eq_none_of_foreign hforeign, parseNumber?_eq_none_of_foreign]
    rwa [String.toList_ofList]

theorem parseNumber?_trim (s : String) : parseNumber? (Text.trim s) = parseNumber? s := by
  rw [parseNumber?_eq, parseNumber?_eq, Text.trim, String.toList_ofList, Text.trimChars_trimChars]

theorem lower_trim_eq (s : String) : Text.lower (Text.trim s) =
    String.ofList ((Text.trimChars s.toList).map Char.toLower) := by
  rw [Text.lower, Text.trim, String.toList_ofList]

theorem parseNumber?_lower_trim (s : String) :
    parseNumber? (Text.lower (Text.trim s)) = parseNumber? s := by
  rw [← parseNumber?_trim s]
  exact parseNumber?_of_lowered (Text.lowered_map_toLower _)

/-! ### Truth values of words -/

/-- The truth value of a trimmed text that is in lower case. -/
def truthOfWord (word : String) : Bool :=
  if word.isEmpty then false
  else if truthyWords.contains word then true
  else if falsyWords.contains word then false
  else
    match parseNumber? word with
    | some x => x != 0.0
    | none => true

theorem truthOfText_eq (s : String) : truthOfText s = truthOfWord (Text.lower (Text.trim s)) := by
  unfold truthOfText truthOfWord
  generalize Text.lower (Text.trim s) = word
  rfl

/-- No word is a number. -/
theorem parseNumber?_of_mem_words {word : String} (h : word ∈ truthyWords ++ falsyWords) :
    parseNumber? word = none := by
  have hnone : ∀ word ∈ truthyWords ++ falsyWords, (parseNumber? word).isNone = true := by
    decide +kernel
  exact Option.isNone_iff_eq_none.1 (hnone word h)

/-- What is neither empty nor one of the words is true unless it writes a zero. -/
theorem truthOfWord_of_notMem {word : String} (hne : word ≠ "")
    (h : word ∉ truthyWords ++ falsyWords) :
    truthOfWord word = ((parseNumber? word).map (· != 0.0)).getD true := by
  rw [List.mem_append, not_or] at h
  unfold truthOfWord
  rw [if_neg (by simpa using hne), if_neg (by simpa using h.1), if_neg (by simpa using h.2)]
  cases parseNumber? word <;> rfl

theorem truthOfText_of_parseNumber? {s : String} {x : Float} (h : parseNumber? s = some x) :
    truthOfText s = (x != 0.0) := by
  rw [← parseNumber?_lower_trim] at h
  rw [truthOfText_eq, truthOfWord_of_notMem, h]
  · rfl
  · intro hempty
    rw [hempty] at h
    cases h
  · intro hword
    cases (parseNumber?_of_mem_words hword).symm.trans h

theorem not_foreign_of_mem_words {word : String} (h : word ∈ truthyWords ++ falsyWords) :
    ∀ c ∈ word.toList, ¬Text.Foreign c := by
  have hnone : ∀ word ∈ truthyWords ++ falsyWords,
      (word.toList.any fun c => Text.Foreign c) = false := by
    decide +kernel
  simpa using hnone word h

/-- The truth value of a text is that of its trimmed text in lower case, by whatever rules for
characters outside ASCII. -/
theorem truthOfWord_of_lowered {s : String} {word : List Char}
    (h : Text.Lowered (Text.trimChars s.toList) word) :
    truthOfWord (String.ofList word) = truthOfText s := by
  rw [truthOfText_eq, lower_trim_eq]
  rcases h.eq_or_foreign with rfl | ⟨⟨c, hc, hforeign⟩, hword⟩
  · rfl
  · -- neither is one of the words, so only their number counts
    have hplain : ∀ ds : List Char, (∃ d ∈ ds, Text.Foreign d) →
        truthOfWord (String.ofList ds) =
          ((parseNumber? (String.ofList ds)).map (· != 0.0)).getD true := by
      rintro ds ⟨d, hd, hforeign⟩
      refine truthOfWord_of_notMem ?_ fun hmem => ?_
      · rw [ne_eq, ← String.toList_eq_nil_iff, String.toList_ofList]
        exact List.ne_nil_of_mem hd
      · refine not_foreign_of_mem_words hmem d ?_ hforeign
        rwa [String.toList_ofList]
    rw [hplain _ hword, hplain _ ⟨c.toLower, List.mem_map_of_mem hc, hforeign.toLower⟩]
    have htrim : (Text.trim s).toList = Text.trimChars s.toList := by
      rw [Text.trim, String.toList_ofList]
    rw [← htrim] at h
    rw [parseNumber?_of_lowered h, ← lower_trim_eq, parseNumber?_lower_trim, parseNumber?_trim]

/-! ### Casts -/

/-- The automatic cast of a text: a truth value, the number that the text writes, or the text as it
is. -/
theorem autoOfText_cases (s : String) :
    (∃ b, Cast.autoOfText s = .bool b ∧ truthOfText s = b ∧ parseNumber? s = none) ∨
      (∃ x, Cast.autoOfText s = .num x ∧ parseNumber? s = some x) ∨
      Cast.autoOfText s = .str s ∧ parseNumber? s = none := by
  have hword : ∀ word, Text.lower (Text.trim s) = word → word ∈ truthyWords ++ falsyWords →
      truthOfText s = truthOfWord word ∧ parseNumber? s = none := by
    intro word heq hmem
    rw [truthOfText_eq, ← parseNumber?_lower_trim, heq]
    exact ⟨rfl, parseNumber?_of_mem_words hmem⟩
  unfold Cast.autoOfText
  split
  · next heq => exact .inl ⟨true, rfl, hword _ heq (by decide)⟩
  · next heq => exact .inl ⟨false, rfl, hword _ heq (by decide)⟩
  · cases hparse : parseNumber? s with
    | some x => exact .inr (.inl ⟨x, rfl, rfl⟩)
    | none => exact .inr (.inr ⟨rfl, rfl⟩)

namespace Cast

theorem apply_eq_null_iff (c : Cast) (v : Value) : c.apply v = .null ↔ v = .null := by
  cases v with
  | null => simp [apply]
  | str s =>
    cases c with
    | auto =>
      rcases autoOfText_cases s with ⟨b, hb, -⟩ | ⟨x, hx, -⟩ | ⟨hs, -⟩
      · simp [apply, hb]
      · simp [apply, hx]
      · simp [apply, hs]
    | bool | number | string => simp [apply]
  | bool | num => cases c <;> simp [apply]

/-- A cast does not change its own result. -/
theorem apply_apply (c : Cast) (v : Value) : c.apply (c.apply v) = c.apply v := by
  cases v with
  | null => cases c <;> rfl
  | str s =>
    cases c with
    | auto =>
      rcases autoOfText_cases s with ⟨b, hb, -⟩ | ⟨x, hx, -⟩ | ⟨hs, -⟩
      · simp only [apply, hb]
      · simp only [apply, hx]
      · simp only [apply, hs]
    | bool | number | string => rfl
  | bool | num => cases c <;> rfl

/-- The automatic cast keeps the truth value. -/
theorem truth_apply_auto (v : Value) : (auto.apply v).truth = v.truth := by
  cases v with
  | null | bool | num => rfl
  | str s =>
    show (autoOfText s).truth = truthOfText s
    rcases autoOfText_cases s with ⟨b, hb, htruth, -⟩ | ⟨x, hx, hparse⟩ | ⟨hs, -⟩
    · rw [hb, htruth]
      rfl
    · -- a number that a text writes is finite
      have hfinite : x.isFinite = true := by
        rw [parseNumber?_eq, Option.filter_eq_some_iff] at hparse
        exact hparse.2
      rw [hx, truthOfText_of_parseNumber? hparse, Value.truth, isNaN_of_isFinite hfinite,
        Bool.not_false, Bool.and_true]
    · rw [hs]
      rfl

theorem truth_apply_bool (v : Value) : (bool.apply v).truth = v.truth := by
  cases v <;> rfl

/-- The automatic cast keeps the number that a text writes. -/
theorem number?_apply_auto {s : String} {x : Float} (h : parseNumber? s = some x) :
    (auto.apply (.str s)).number? = some x := by
  show (autoOfText s).number? = some x
  rcases autoOfText_cases s with ⟨b, -, -, hparse⟩ | ⟨y, hy, hparse⟩ | ⟨-, hparse⟩
  · cases hparse.symm.trans h
  · rw [hy, ← h, hparse]
    rfl
  · cases hparse.symm.trans h

/-- Casts are stable and keep truth values: what has been cast once is the same when it is cast
again, only `null` becomes `null`, the automatic cast and that to truth values keep the truth value,
and the automatic cast keeps the number of every text that writes one. The truth value of a text
does not depend on the lower case of characters outside ASCII. -/
theorem stable (v : Value) :
    (∀ c : Cast, (c.apply (c.apply v)).same (c.apply v) = true ∧ (c.apply v = .null ↔ v = .null)) ∧
    (auto.apply v).truth = v.truth ∧ (bool.apply v).truth = v.truth ∧
    (∀ s x, v = .str s → parseNumber? s = some x → ∀ default,
      (auto.apply v).numberOr default = v.numberOr default ∧ v.numberOr default = x) ∧
    ∀ s word, v = .str s → Text.Lowered (Text.trimChars s.toList) word →
      truthOfWord (String.ofList word) = v.truth := by
  refine ⟨fun c => ⟨?_, apply_eq_null_iff c v⟩, truth_apply_auto v, truth_apply_bool v, ?_, ?_⟩
  · rw [apply_apply]
    exact Value.same_refl _
  · rintro s x rfl hparse default
    have hnumber : (Value.str s).number? = some x := hparse
    rw [Value.numberOr, Value.numberOr, number?_apply_auto hparse, hnumber]
    exact ⟨rfl, rfl⟩
  · rintro s word rfl hlowered
    show truthOfWord (String.ofList word) = truthOfText s
    exact truthOfWord_of_lowered hlowered

/-- A number with a comma, a capital mark and blanks around it, and a text with capital letters
outside ASCII. -/
theorem stable_comma : parseNumber? "\u00A01,5E3 " = some 1500.0 ∧
    (auto.apply (.str "\u00A01,5E3 ")).numberOr 7.0 = 1500.0 ∧
    Text.Lowered (Text.trimChars " ÄUS\u212A".toList) ['ä', 'u', 's', 'k'] ∧
    truthOfWord "äusk" = (Value.str " ÄUS\u212A").truth := by
  have hparse : parseNumber? "\u00A01,5E3 " = some 1500.0 := by rfl
  have hlowered : Text.Lowered (Text.trimChars " ÄUS\u212A".toList) ['ä', 'u', 's', 'k'] := by
    have htrim : Text.trimChars " ÄUS\u212A".toList = ['Ä', 'U', 'S', '\u212A'] := by rfl
    rw [htrim]
    have hfirst : Text.LoweredChar 'Ä' ['ä'] :=
      .foreign (by decide) ⟨'ä', List.mem_singleton_self _, .inl (by decide)⟩
        (List.forall_mem_singleton.2 rfl)
    have hlast : Text.LoweredChar '\u212A' ['k'] :=
      .foreign (by decide) ⟨'k', List.mem_singleton_self _, .inr rfl⟩
        (List.forall_mem_singleton.2 rfl)
    exact .cons hfirst (.cons (.ascii (by decide)) (.cons (.ascii (by decide)) (.cons hlast .nil)))
  obtain ⟨-, -, -, hnumber, -⟩ := stable (.str "\u00A01,5E3 ")
  obtain ⟨-, -, -, -, hword⟩ := stable (.str " ÄUS\u212A")
  obtain ⟨hsame, hvalue⟩ := hnumber _ _ rfl hparse 7.0
  exact ⟨hparse, hsame.trans hvalue, hlowered, hword _ _ rfl hlowered⟩

end Cast

end SignalGraph
