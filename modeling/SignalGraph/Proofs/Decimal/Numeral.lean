import SignalGraph.Decimal.Numeral
import SignalGraph.Proofs.Json.Literals
import SignalGraph.Proofs.Text.Case

/-!
# The characters of numerals

A numeral is written with digits, signs, a point and the mark of its exponent, which may be a small
or a capital letter (`forall_isNumberChar_of_ofChars?`). So it reads the same in lower case
(`Numeral.ofChars?_map_toLower`). The words for NaN and the infinities are read as numbers too, but
none of these is finite: a finite number is always written as a numeral (`filter_floatOfChars?`).
-/

namespace SignalGraph.Decimal

/-! ### Digits and signs -/

/-- The digits are ten characters in a row. -/
theorem isDigit_iff_toNat {c : Char} : isDigit c = true ↔ 48 ≤ c.toNat ∧ c.toNat ≤ 57 := by
  unfold isDigit
  rw [Bool.and_eq_true, decide_eq_true_eq, decide_eq_true_eq]
  exact Iff.rfl

theorem toLower_of_isDigit {c : Char} (h : isDigit c = true) : c.toLower = c := by
  rw [isDigit_iff_toNat] at h
  exact Text.toLower_eq_self (by omega)

theorem isDigit_comp_toLower : isDigit ∘ Char.toLower = isDigit := by
  funext c
  show isDigit c.toLower = isDigit c
  rw [Bool.eq_iff_iff, isDigit_iff_toNat, isDigit_iff_toNat, Text.toNat_toLower]
  split <;> omega

/-- No other character becomes a sign or a point. -/
theorem toLower_eq_iff {c d : Char} (hd : d.toNat < 65) : c.toLower = d ↔ c = d := by
  rw [← Char.toNat_inj, ← Char.toNat_inj, Text.toNat_toLower]
  split <;> omega

theorem map_toLower_of_forall_isDigit {cs : List Char} (h : ∀ c ∈ cs, isDigit c = true) :
    cs.map Char.toLower = cs :=
  (List.map_congr_left fun c hc => toLower_of_isDigit (h c hc)).trans (List.map_id _)

/-- Lower case leaves the digits at the front of a text alone. -/
theorem takeWhile_isDigit_map_toLower (cs : List Char) :
    (cs.map Char.toLower).takeWhile isDigit = cs.takeWhile isDigit := by
  rw [List.takeWhile_map, isDigit_comp_toLower]
  exact map_toLower_of_forall_isDigit fun c hc => List.mem_takeWhile_imp hc

theorem dropWhile_isDigit_map_toLower (cs : List Char) :
    (cs.map Char.toLower).dropWhile isDigit = (cs.dropWhile isDigit).map Char.toLower := by
  rw [List.dropWhile_map, isDigit_comp_toLower]

theorem natOfChars?_map_toLower (cs : List Char) :
    natOfChars? (cs.map Char.toLower) = natOfChars? cs := by
  unfold natOfChars?
  rw [List.isEmpty_map, List.all_map, isDigit_comp_toLower]
  split
  · rfl
  · next hcs =>
    have hdigits : ∀ c ∈ cs, isDigit c = true := by simpa using (by simpa using hcs : _ ∧ _).2
    rw [map_toLower_of_forall_isDigit hdigits]

/-- A list begins with a sign, or has none to split off. -/
theorem splitSign_cases (cs : List Char) :
    (∃ rest, cs = '-' :: rest) ∨ (∃ rest, cs = '+' :: rest) ∨
      ∀ c rest, cs = c :: rest → c ≠ '-' ∧ c ≠ '+' := by
  cases cs with
  | nil => exact .inr (.inr fun _ _ h => nomatch h)
  | cons c rest =>
    by_cases hminus : c = '-'
    · exact .inl ⟨rest, hminus ▸ rfl⟩
    · by_cases hplus : c = '+'
      · exact .inr (.inl ⟨rest, hplus ▸ rfl⟩)
      · refine .inr (.inr fun d rest' h => ?_)
        obtain ⟨rfl, -⟩ := List.cons.inj h
        exact ⟨hminus, hplus⟩

theorem splitSign_of_forall_ne {cs : List Char}
    (h : ∀ c rest, cs = c :: rest → c ≠ '-' ∧ c ≠ '+') : splitSign cs = (false, cs) := by
  unfold splitSign
  split
  · exact absurd rfl (h _ _ rfl).1
  · exact absurd rfl (h _ _ rfl).2
  · rfl

/-- Lower case leaves the sign alone. -/
theorem splitSign_map_toLower (cs : List Char) :
    splitSign (cs.map Char.toLower) = ((splitSign cs).1, (splitSign cs).2.map Char.toLower) := by
  rcases splitSign_cases cs with ⟨rest, rfl⟩ | ⟨rest, rfl⟩ | hnone
  · rfl
  · rfl
  · rw [splitSign_of_forall_ne hnone]
    refine splitSign_of_forall_ne fun d rest h => ?_
    obtain ⟨c, rest', rfl, rfl, -⟩ := List.map_eq_cons_iff.1 h
    rw [ne_eq, ne_eq, toLower_eq_iff (by decide), toLower_eq_iff (by decide)]
    exact hnone c rest' rfl

theorem intOfChars?_map_toLower (cs : List Char) :
    intOfChars? (cs.map Char.toLower) = intOfChars? cs := by
  unfold intOfChars?
  rw [splitSign_map_toLower]
  dsimp only
  rw [natOfChars?_map_toLower]

/-! ### Numerals in lower case -/

namespace Numeral

/-- An exponent begins with its letter. -/
theorem exponentOfChars?_of_ne {c : Char} (he : c ≠ 'e') (hE : c ≠ 'E') (cs : List Char) :
    exponentOfChars? (c :: cs) = none := by
  unfold exponentOfChars?
  split
  · next h => cases h
  · next h => exact absurd (List.cons.inj h).1 he
  · next h => exact absurd (List.cons.inj h).1 hE
  · rfl

/-- Lower case leaves exponents alone, as their letter may be written in either case. -/
theorem exponentOfChars?_map_toLower (cs : List Char) :
    exponentOfChars? (cs.map Char.toLower) = exponentOfChars? cs := by
  cases cs with
  | nil => rfl
  | cons c cs =>
    rw [List.map_cons]
    by_cases he : c = 'e'
    · subst he
      exact intOfChars?_map_toLower cs
    · by_cases hE : c = 'E'
      · subst hE
        exact intOfChars?_map_toLower cs
      · -- the small letter of no other character is the mark
        have hmark : c.toLower ≠ 'e' ∧ c.toLower ≠ 'E' := by
          have he' : c.toNat ≠ 101 := fun h => he (Char.toNat_inj.1 h)
          have hE' : c.toNat ≠ 69 := fun h => hE (Char.toNat_inj.1 h)
          rw [ne_eq, ne_eq, ← Char.toNat_inj, ← Char.toNat_inj, Text.toNat_toLower,
            show 'e'.toNat = 101 from rfl, show 'E'.toNat = 69 from rfl]
          split <;> omega
        rw [exponentOfChars?_of_ne hmark.1 hmark.2, exponentOfChars?_of_ne he hE]

/-- The digits after the point and what follows them. -/
def fractionOf : List Char → List Char × List Char
  | '.' :: rest => (rest.takeWhile isDigit, rest.dropWhile isDigit)
  | rest => ([], rest)

/-- A numeral is its sign, its digits, its fraction and its exponent, one after the other. -/
theorem ofChars?_eq (cs : List Char) : ofChars? cs =
    if ((splitSign cs).2.takeWhile isDigit).isEmpty &&
        (fractionOf ((splitSign cs).2.dropWhile isDigit)).1.isEmpty then none
    else
      (exponentOfChars? (fractionOf ((splitSign cs).2.dropWhile isDigit)).2).map fun e =>
        ⟨(splitSign cs).1, natOfDigits ((splitSign cs).2.takeWhile isDigit ++
          (fractionOf ((splitSign cs).2.dropWhile isDigit)).1),
          e - (fractionOf ((splitSign cs).2.dropWhile isDigit)).1.length⟩ := by
  rfl

theorem fractionOf_of_ne {c : Char} (h : c ≠ '.') (cs : List Char) :
    fractionOf (c :: cs) = ([], c :: cs) := by
  unfold fractionOf
  split
  · next heq => exact absurd (List.cons.inj heq).1 h
  · rfl

/-- Lower case leaves fractions alone. -/
theorem fractionOf_map_toLower (cs : List Char) :
    fractionOf (cs.map Char.toLower) = ((fractionOf cs).1, (fractionOf cs).2.map Char.toLower) := by
  cases cs with
  | nil => rfl
  | cons c cs =>
    rw [List.map_cons]
    by_cases hpoint : c = '.'
    · subst hpoint
      exact Prod.ext (takeWhile_isDigit_map_toLower cs) (dropWhile_isDigit_map_toLower cs)
    · rw [fractionOf_of_ne hpoint, fractionOf_of_ne (mt (toLower_eq_iff (by decide)).1 hpoint)]
      rfl

/-- A numeral reads the same in lower case. -/
theorem ofChars?_map_toLower (cs : List Char) : ofChars? (cs.map Char.toLower) = ofChars? cs := by
  rw [ofChars?_eq, ofChars?_eq, splitSign_map_toLower]
  dsimp only
  rw [takeWhile_isDigit_map_toLower, dropWhile_isDigit_map_toLower, fractionOf_map_toLower]
  dsimp only
  rw [exponentOfChars?_map_toLower]

/-! ### Characters -/

/-- An exponent is written in characters of numbers. -/
theorem forall_isNumberChar_of_exponentOfChars? {cs : List Char} {e : Int}
    (h : exponentOfChars? cs = some e) : ∀ c ∈ cs, Json.isNumberChar c = true := by
  unfold exponentOfChars? at h
  split at h
  · simp
  · exact List.forall_mem_cons.2 ⟨rfl, Json.forall_isNumberChar_of_intOfChars? h⟩
  · exact List.forall_mem_cons.2 ⟨rfl, Json.forall_isNumberChar_of_intOfChars? h⟩
  · cases h

theorem forall_isNumberChar_of_fractionOf {cs : List Char}
    (h : ∀ c ∈ (fractionOf cs).2, Json.isNumberChar c = true) :
    ∀ c ∈ cs, Json.isNumberChar c = true := by
  unfold fractionOf at h
  split at h
  · next rest =>
    refine List.forall_mem_cons.2 ⟨rfl, ?_⟩
    rw [← List.takeWhile_append_dropWhile (p := isDigit) (l := rest)]
    refine List.forall_mem_append.2 ⟨fun c hc => ?_, h⟩
    exact Json.isNumberChar_of_isDigit (List.mem_takeWhile_imp hc)
  · exact h

/-- A numeral has no other characters than numbers have. -/
theorem forall_isNumberChar_of_ofChars? {cs : List Char} {n : Numeral} (h : ofChars? cs = some n) :
    ∀ c ∈ cs, Json.isNumberChar c = true := by
  rw [ofChars?_eq, Option.ite_none_left_eq_some, Option.map_eq_some_iff] at h
  obtain ⟨-, e, hexponent, -⟩ := h
  have hunsigned : ∀ c ∈ (splitSign cs).2, Json.isNumberChar c = true := by
    rw [← List.takeWhile_append_dropWhile (p := isDigit) (l := (splitSign cs).2)]
    refine List.forall_mem_append.2 ⟨fun c hc => ?_, ?_⟩
    · exact Json.isNumberChar_of_isDigit (List.mem_takeWhile_imp hc)
    · exact forall_isNumberChar_of_fractionOf (forall_isNumberChar_of_exponentOfChars? hexponent)
  rcases splitSign_cases cs with ⟨rest, rfl⟩ | ⟨rest, rfl⟩ | hnone
  · exact List.forall_mem_cons.2 ⟨rfl, hunsigned⟩
  · exact List.forall_mem_cons.2 ⟨rfl, hunsigned⟩
  · rw [splitSign_of_forall_ne hnone] at hunsigned
    exact hunsigned

end Numeral

/-! ### Finite numbers -/

/-- Whatever is read as a finite number is a numeral. -/
theorem filter_floatOfChars? (cs : List Char) : (floatOfChars? cs).filter Float.isFinite =
    ((Numeral.ofChars? cs).map Numeral.toFloat).filter Float.isFinite := by
  unfold floatOfChars?
  split
  · next n hn => rw [hn, Option.map_some]
  · next hn =>
    rw [hn, Option.map_none, Option.filter_none]
    -- the words stand for the infinities and for NaN
    split
    next negative word _ =>
    split
    · cases negative <;> rfl
    · cases negative <;> rfl
    · rfl
    · rfl

end SignalGraph.Decimal
