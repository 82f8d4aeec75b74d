import Mathlib.Algebra.Group.Nat.Defs
import Mathlib.Data.List.TakeWhile
import SignalGraph.Json.Printer
import SignalGraph.Json.Reader

/-!
# Numbers and strings in JSON text

How numbers and characters are spelled, and what the reader makes of it. Whole numbers are written
in decimal digits (`number?_toDigits`, `number?_minus_toDigits`), and whatever the grammar allows
has some value (`exists_number?`).

A character of a string stands for itself or is escaped by a letter, by its number in four
hexadecimal digits, or by the two halves of a surrogate pair (`SpelledChar`). The reader gets the
text back from any mixture of these (`foldlM_next?_chars`), and the printer writes one of them
(`spelledChar_escapeChar`).
-/

namespace SignalGraph.Json

open Decimal

/-! ### Whole numbers -/

theorem isDigit_iff {c : Char} : isDigit c ↔ c.isDigit := by
  simp only [isDigit, Char.isDigit, Bool.and_eq_true, decide_eq_true_eq]
  exact Iff.rfl

theorem all_isDigit_toDigits (n : Nat) : (Nat.toDigits 10 n).all isDigit = true := by
  rw [List.all_eq_true]
  exact fun c hc => isDigit_iff.2 (Nat.isDigit_of_mem_toDigits (by decide) (by decide) hc)

/-- The digits of a number are read as the number. -/
theorem natOfDigits_toDigits (n : Nat) : natOfDigits (Nat.toDigits 10 n) = n :=
  Nat.ofDigitChars_toDigits (by decide) (by decide)

theorem natOfChars?_toDigits (n : Nat) : natOfChars? (Nat.toDigits 10 n) = some n := by
  have hnonempty : (Nat.toDigits 10 n).isEmpty = false :=
    List.isEmpty_eq_false_iff.2 Nat.toDigits_ne_nil
  simp [natOfChars?, hnonempty, all_isDigit_toDigits, natOfDigits_toDigits]

/-- The digits of a number begin with a zero only if there is no other digit. -/
theorem eq_nil_of_toDigits_eq_cons {n : Nat} {cs : List Char}
    (h : Nat.toDigits 10 n = '0' :: cs) : cs = [] := by
  induction n using Nat.strongRecOn generalizing cs with
  | ind n ih =>
    by_cases hn : n < 10
    · rw [Nat.toDigits_of_lt_base hn] at h
      exact (List.cons.inj h).2.symm
    · exfalso
      rw [Nat.toDigits_of_base_le (by decide) (Nat.le_of_not_lt hn)] at h
      obtain ⟨c, rest, hfront⟩ := List.exists_cons_of_ne_nil (Nat.toDigits_ne_nil (n := n / 10))
      rw [hfront] at h
      obtain ⟨rfl, -⟩ := List.cons.inj h
      have hrest : rest = [] := ih (n / 10) (by omega) hfront
      have hzero : n / 10 = 0 := by
        rw [← natOfDigits_toDigits (n / 10), hfront, hrest]
        rfl
      omega

/-- A number has at least one digit. -/
theorem exists_toDigits_eq_cons (n : Nat) : ∃ c cs, Nat.toDigits 10 n = c :: cs ∧
    isDigit c = true ∧ cs.all isDigit = true := by
  obtain ⟨c, cs, hcs⟩ := List.exists_cons_of_ne_nil (Nat.toDigits_ne_nil (n := n) (b := 10))
  have hdigits := all_isDigit_toDigits n
  rw [hcs, List.all_cons, Bool.and_eq_true] at hdigits
  exact ⟨c, cs, hcs, hdigits⟩

/-- The digits of a number are well formed: there is no needless zero in front. -/
theorem isUnsignedNumber_toDigits (n : Nat) : isUnsignedNumber (Nat.toDigits 10 n) = true := by
  obtain ⟨c, cs, hcs, hc, htail⟩ := exists_toDigits_eq_cons n
  rw [hcs]
  unfold isUnsignedNumber
  split
  · next heq =>
    obtain ⟨rfl, rfl⟩ := List.cons.inj heq
    rw [eq_nil_of_toDigits_eq_cons hcs]
    rfl
  · next heq =>
    obtain ⟨rfl, rfl⟩ := List.cons.inj heq
    rw [hc, List.dropWhile_eq_nil_iff.2 (List.all_eq_true.1 htail)]
    rfl
  · next heq => cases heq

/-- A number that begins with a digit has no sign. -/
theorem splitSign_of_isDigit {c : Char} (h : isDigit c = true) (cs : List Char) :
    splitSign (c :: cs) = (false, c :: cs) := by
  unfold splitSign
  split
  · next heq =>
    obtain ⟨rfl, -⟩ := List.cons.inj heq
    exact absurd h (by decide)
  · next heq =>
    obtain ⟨rfl, -⟩ := List.cons.inj heq
    exact absurd h (by decide)
  · rfl

theorem isNumber_of_isDigit {c : Char} (h : isDigit c = true) (cs : List Char) :
    isNumber (c :: cs) = isUnsignedNumber (c :: cs) := by
  unfold isNumber
  split
  · next heq =>
    obtain ⟨rfl, -⟩ := List.cons.inj heq
    exact absurd h (by decide)
  · rfl

/-- A whole number that fits in 64 bits is read as such. -/
theorem number?_toDigits {n : Nat} (h : n < 2 ^ 64) :
    number? (Nat.toDigits 10 n) = some (.unsigned n) := by
  have hunsigned := isUnsignedNumber_toDigits n
  have hvalue := natOfChars?_toDigits n
  obtain ⟨c, cs, hcs, hc, -⟩ := exists_toDigits_eq_cons n
  rw [hcs] at hunsigned hvalue ⊢
  have hnumber : isNumber (c :: cs) = true := (isNumber_of_isDigit hc cs).trans hunsigned
  have hwhole : wholeOfChars? (c :: cs) = some (.unsigned n) := by
    simp only [wholeOfChars?, splitSign_of_isDigit hc, hvalue, Bool.false_eq_true, if_false]
    exact if_pos h
  simp [number?, hnumber, hwhole]

theorem number?_minus_toDigits {n : Nat} (hpos : 0 < n) (h : n ≤ 2 ^ 63) :
    number? ('-' :: Nat.toDigits 10 n) = some (.signed (-n)) := by
  have hnumber : isNumber ('-' :: Nat.toDigits 10 n) = true := isUnsignedNumber_toDigits n
  have hsign : splitSign ('-' :: Nat.toDigits 10 n) = (true, Nat.toDigits 10 n) := rfl
  have hwhole : wholeOfChars? ('-' :: Nat.toDigits 10 n) = some (.signed (-n)) := by
    simp only [wholeOfChars?, hsign, natOfChars?_toDigits, if_true]
    exact if_pos (by simpa [hpos] using h)
  simp [number?, hnumber, hwhole]

/-! ### Numbers -/

theorem isNumberChar_of_isDigit {c : Char} (h : isDigit c = true) : isNumberChar c = true := by
  simp [isNumberChar, h]

theorem forall_isDigit_of_natOfChars? {cs : List Char} {n : Nat} (h : natOfChars? cs = some n) :
    ∀ c ∈ cs, isDigit c = true := by
  unfold natOfChars? at h
  split at h
  · cases h
  · next hcs => simpa using (by simpa using hcs : _ ∧ _).2

/-- Whole numbers are written in characters of numbers alone. -/
theorem forall_isNumberChar_of_intOfChars? {cs : List Char} {i : Int}
    (h : intOfChars? cs = some i) : ∀ c ∈ cs, isNumberChar c = true := by
  unfold intOfChars? splitSign at h
  split at h
  next negative digits heq =>
  have hdigits : ∀ c ∈ digits, isNumberChar c = true := by
    cases hn : natOfChars? digits with
    | none => simp [hn] at h
    | some n =>
      exact fun c hc => isNumberChar_of_isDigit (forall_isDigit_of_natOfChars? hn c hc)
  split at heq
  · obtain ⟨-, rfl⟩ := Prod.mk.inj heq
    exact List.forall_mem_cons.2 ⟨rfl, hdigits⟩
  · obtain ⟨-, rfl⟩ := Prod.mk.inj heq
    exact List.forall_mem_cons.2 ⟨rfl, hdigits⟩
  · obtain ⟨-, rfl⟩ := Prod.mk.inj heq
    exact hdigits

theorem forall_isNumberChar_of_isExponent {cs : List Char} (h : isExponent cs = true) :
    ∀ c ∈ cs, isNumberChar c = true := by
  cases cs with
  | nil => simp
  | cons c cs =>
    simp only [isExponent, Bool.and_eq_true, Bool.or_eq_true, beq_iff_eq] at h
    obtain ⟨hc, hint⟩ := h
    obtain ⟨i, hi⟩ := Option.isSome_iff_exists.1 hint
    refine List.forall_mem_cons.2 ⟨?_, forall_isNumberChar_of_intOfChars? hi⟩
    rcases hc with rfl | rfl <;> rfl

theorem forall_isNumberChar_of_isFractionAndExponent {cs : List Char}
    (h : isFractionAndExponent cs = true) : ∀ c ∈ cs, isNumberChar c = true := by
  unfold isFractionAndExponent at h
  split at h
  · next cs =>
    obtain ⟨-, hexponent⟩ := Bool.and_eq_true_iff.1 h
    refine List.forall_mem_cons.2 ⟨rfl, ?_⟩
    rw [← List.takeWhile_append_dropWhile (p := isDigit) (l := cs)]
    refine List.forall_mem_append.2 ⟨fun c hc => ?_, forall_isNumberChar_of_isExponent hexponent⟩
    exact isNumberChar_of_isDigit (List.mem_takeWhile_imp hc)
  · exact forall_isNumberChar_of_isExponent h

/-- A fraction or an exponent does not begin with a digit. -/
theorem dropWhile_of_isFractionAndExponent {cs : List Char}
    (h : isFractionAndExponent cs = true) : cs.dropWhile isDigit = cs := by
  cases cs with
  | nil => rfl
  | cons c cs =>
    refine List.dropWhile_cons_of_neg fun hc => ?_
    unfold isFractionAndExponent at h
    split at h
    · next heq =>
      obtain ⟨rfl, -⟩ := List.cons.inj heq
      exact absurd hc (by decide)
    · simp only [isExponent, Bool.and_eq_true, Bool.or_eq_true, beq_iff_eq] at h
      rcases h.1 with rfl | rfl
      · exact absurd hc (by decide)
      · exact absurd hc (by decide)

/-- A number without its sign begins with a digit, and after its first digits comes a fraction or an
exponent. -/
theorem exists_eq_cons_of_isUnsignedNumber {cs : List Char} (h : isUnsignedNumber cs = true) :
    ∃ c rest, cs = c :: rest ∧ isDigit c = true ∧
      isFractionAndExponent (rest.dropWhile isDigit) = true := by
  unfold isUnsignedNumber at h
  split at h
  · next cs => exact ⟨'0', cs, rfl, rfl, (dropWhile_of_isFractionAndExponent h).symm ▸ h⟩
  · next c cs _ =>
    obtain ⟨hc, htail⟩ := Bool.and_eq_true_iff.1 h
    exact ⟨c, cs, rfl, hc, htail⟩
  · cases h

/-- A number is an unsigned one, or one with a minus in front. -/
theorem isNumber_cases {cs : List Char} (h : isNumber cs = true) :
    (∃ rest, cs = '-' :: rest ∧ isUnsignedNumber rest = true) ∨ isUnsignedNumber cs = true := by
  unfold isNumber at h
  split at h
  · next rest => exact .inl ⟨rest, rfl, h⟩
  · exact .inr h

/-- Unsigned numbers are written in characters of numbers alone. -/
theorem forall_isNumberChar_of_isUnsignedNumber {cs : List Char} (h : isUnsignedNumber cs = true) :
    ∀ c ∈ cs, isNumberChar c = true := by
  obtain ⟨c, rest, rfl, hc, htail⟩ := exists_eq_cons_of_isUnsignedNumber h
  refine List.forall_mem_cons.2 ⟨isNumberChar_of_isDigit hc, ?_⟩
  rw [← List.takeWhile_append_dropWhile (p := isDigit) (l := rest)]
  refine List.forall_mem_append.2 ⟨fun d hd => ?_, ?_⟩
  · exact isNumberChar_of_isDigit (List.mem_takeWhile_imp hd)
  · exact forall_isNumberChar_of_isFractionAndExponent htail

/-- A number begins with a minus sign or a digit and goes on with characters of numbers. -/
theorem exists_eq_cons_of_number? {cs : List Char} {d : Document} (h : number? cs = some d) :
    ∃ c rest, cs = c :: rest ∧ (c = '-' ∨ isDigit c = true) ∧
      ∀ c ∈ rest, isNumberChar c = true := by
  have hnumber : isNumber cs = true := by
    by_contra hnot
    simp [number?, hnot] at h
  rcases isNumber_cases hnumber with ⟨rest, rfl, hrest⟩ | hcs
  · exact ⟨'-', rest, rfl, .inl rfl, forall_isNumberChar_of_isUnsignedNumber hrest⟩
  · have hchars := forall_isNumberChar_of_isUnsignedNumber hcs
    obtain ⟨c, rest, rfl, hc, -⟩ := exists_eq_cons_of_isUnsignedNumber hcs
    exact ⟨c, rest, rfl, .inr hc, (List.forall_mem_cons.1 hchars).2⟩

/-- An exponent that is well formed has a value. -/
theorem exponentOfChars?_isSome {cs : List Char} (h : isExponent cs = true) :
    (Numeral.exponentOfChars? cs).isSome = true := by
  cases cs with
  | nil => rfl
  | cons c cs =>
    simp only [isExponent, Bool.and_eq_true, Bool.or_eq_true, beq_iff_eq] at h
    obtain ⟨rfl | rfl, hint⟩ := h
    · exact hint
    · exact hint

/-- Digits followed by a well-formed rest have a value. -/
theorem ofChars?_isSome {cs rest : List Char} {negative : Bool} {c : Char}
    (hsign : splitSign cs = (negative, c :: rest)) (hc : isDigit c = true)
    (htail : isFractionAndExponent (rest.dropWhile isDigit) = true) :
    (Numeral.ofChars? cs).isSome = true := by
  have hwhole : (c :: rest).takeWhile isDigit = c :: rest.takeWhile isDigit :=
    List.takeWhile_cons_of_pos hc
  have hdrop : (c :: rest).dropWhile isDigit = rest.dropWhile isDigit :=
    List.dropWhile_cons_of_pos hc
  simp only [Numeral.ofChars?, hsign, hwhole, hdrop, List.isEmpty_cons, Bool.false_and,
    Bool.false_eq_true, if_false, Option.isSome_map]
  generalize rest.dropWhile isDigit = tail at htail ⊢
  split
  · exact exponentOfChars?_isSome (Bool.and_eq_true_iff.1 htail).2
  · next hpoint =>
    rw [isFractionAndExponent.eq_2 tail hpoint] at htail
    exact exponentOfChars?_isSome htail

/-- What is well formed by the grammar has a value. -/
theorem exists_number? {cs : List Char} (h : isNumber cs = true) : ∃ d, number? cs = some d := by
  have hnumeral : (Numeral.ofChars? cs).isSome = true := by
    rcases isNumber_cases h with ⟨rest, rfl, hrest⟩ | hcs
    · obtain ⟨c, rest, rfl, hc, htail⟩ := exists_eq_cons_of_isUnsignedNumber hrest
      exact ofChars?_isSome rfl hc htail
    · obtain ⟨c, rest, rfl, hc, htail⟩ := exists_eq_cons_of_isUnsignedNumber hcs
      exact ofChars?_isSome (splitSign_of_isDigit hc rest) hc htail
  obtain ⟨n, hn⟩ := Option.isSome_iff_exists.1 hnumeral
  cases hwhole : wholeOfChars? cs with
  | some d => exact ⟨d, by simp [number?, h, hwhole]⟩
  | none => exact ⟨_, by simp only [number?, h, hwhole, hn]; rfl⟩

/-! ### Strings -/

/-- Whether four hexadecimal digits, in either case, write a number. -/
inductive SpelledUnit : Nat → List Char → Prop
  | intro {c₁ c₂ c₃ c₄ : Char} {d₁ d₂ d₃ d₄ : Nat} (h₁ : hexValue? c₁ = some d₁)
      (h₂ : hexValue? c₂ = some d₂) (h₃ : hexValue? c₃ = some d₃) (h₄ : hexValue? c₄ = some d₄) :
      SpelledUnit (16 * (16 * (16 * d₁ + d₂) + d₃) + d₄) [c₁, c₂, c₃, c₄]

/-- Whether characters write one character inside a string. -/
inductive SpelledChar : Char → List Char → Prop
  | itself {c : Char} (hquote : c ≠ '"') (hbackslash : c ≠ '\\') (hcontrol : 0x20 ≤ c.toNat) :
      SpelledChar c [c]
  | letter {c e : Char} (h : escaped? e = some c) : SpelledChar c ['\\', e]
  | unit {c : Char} {digits : List Char} (h : SpelledUnit c.toNat digits) :
      SpelledChar c ('\\' :: 'u' :: digits)
  | pair {c : Char} {high low : Nat} {digits digits' : List Char}
      (hhigh : 0xD800 ≤ high ∧ high ≤ 0xDBFF) (hlow : 0xDC00 ≤ low ∧ low ≤ 0xDFFF)
      (hc : c.toNat = 0x10000 + (high - 0xD800) * 0x400 + (low - 0xDC00))
      (h : SpelledUnit high digits) (h' : SpelledUnit low digits') :
      SpelledChar c ('\\' :: 'u' :: (digits ++ '\\' :: 'u' :: digits'))

/-- Whether characters write a text, character by character. -/
inductive SpelledChars : List Char → List Char → Prop
  | nil : SpelledChars [] []
  | cons {c : Char} {s piece cs : List Char} (head : SpelledChar c piece)
      (tail : SpelledChars s cs) : SpelledChars (c :: s) (piece ++ cs)

/-- Reads on in a string; its closing quote is not taken. -/
def OpenString.next? (p : OpenString) (c : Char) : Option OpenString :=
  if c = '"' ∧ p.escape = .none then none else p.step c

/-- Reading four digits after the mark of an escape adds the unit. -/
theorem foldlM_next?_unit {n : Nat} {digits : List Char} (h : SpelledUnit n digits)
    (p : OpenString) (hp : p.escape = .none) :
    ('\\' :: 'u' :: digits).foldlM OpenString.next? p = some (p.pushUnit n) := by
  obtain ⟨h₁, h₂, h₃, h₄⟩ := h
  simp [List.foldlM_cons, OpenString.next?, OpenString.step, hp, h₁, h₂, h₃, h₄]
  rfl

/-- A character that needs no escape is added as it is. -/
theorem foldlM_next?_itself {c : Char} (hquote : c ≠ '"') (hbackslash : c ≠ '\\')
    (hcontrol : 0x20 ≤ c.toNat) (p : OpenString) (hp : p.escape = .none) :
    [c].foldlM OpenString.next? p = some (p.push c) := by
  simp [OpenString.next?, OpenString.step, hp, hquote, hbackslash, Nat.not_lt.2 hcontrol]

/-- An escape by a letter adds the character that the letter stands for. -/
theorem foldlM_next?_letter {c e : Char} (h : escaped? e = some c) (p : OpenString)
    (hp : p.escape = .none) : ['\\', e].foldlM OpenString.next? p = some (p.push c) := by
  have he : e ≠ 'u' := by
    rintro rfl
    simp [escaped?] at h
  simp [List.foldlM_cons, OpenString.next?, OpenString.step, hp, he, h]
  rfl

/-- A spelled character is added to a string in which no half of a pair has been left alone. -/
theorem foldlM_next?_char {c : Char} {piece : List Char} (h : SpelledChar c piece)
    (reversed : List Char) :
    piece.foldlM OpenString.next? ⟨reversed, .none, none, true⟩ =
      some ⟨c :: reversed, .none, none, true⟩ := by
  cases h with
  | itself hquote hbackslash hcontrol =>
    exact foldlM_next?_itself hquote hbackslash hcontrol _ rfl
  | letter h => exact foldlM_next?_letter h _ rfl
  | unit h =>
    -- no character lies in the range of the surrogates
    have hrange : c.toNat < 0xD800 ∨ 0xDFFF < c.toNat ∧ c.toNat < 0x110000 := c.valid
    rw [foldlM_next?_unit h _ rfl]
    unfold OpenString.pushUnit
    rw [if_neg (by simp; omega), if_neg (by simp; omega), Char.ofNat_toNat]
    rfl
  | @pair high low digits digits' hhigh hlow hc h h' =>
    have hsplit : '\\' :: 'u' :: (digits ++ '\\' :: 'u' :: digits') =
        ('\\' :: 'u' :: digits) ++ ('\\' :: 'u' :: digits') := rfl
    have hfirst : OpenString.pushUnit ⟨reversed, .none, none, true⟩ high =
        ⟨reversed, .none, some high, true⟩ := by
      simp [OpenString.pushUnit, hhigh]
    have hsecond : OpenString.pushUnit ⟨reversed, .none, some high, true⟩ low =
        ⟨c :: reversed, .none, none, true⟩ := by
      unfold OpenString.pushUnit
      rw [if_neg (by simp; omega), if_pos (by simpa using hlow)]
      simp only [← hc, Char.ofNat_toNat]
    rw [hsplit, List.foldlM_append, foldlM_next?_unit h _ rfl, hfirst, Option.bind_eq_bind,
      Option.bind_some, foldlM_next?_unit h' _ rfl, hsecond]

/-- A string is read as the text that its characters write. -/
theorem foldlM_next?_chars {s cs : List Char} (h : SpelledChars s cs) (reversed : List Char) :
    cs.foldlM OpenString.next? ⟨reversed, .none, none, true⟩ =
      some ⟨s.reverse ++ reversed, .none, none, true⟩ := by
  induction h generalizing reversed with
  | nil => rfl
  | cons head _ ih =>
    rw [List.foldlM_append, foldlM_next?_char head, Option.bind_eq_bind, Option.bind_some, ih,
      List.reverse_cons, List.append_assoc, List.singleton_append]

theorem hexValue?_hexDigit (n : Nat) : hexValue? (hexDigit n) = some (n % 16) := by
  have hall : ∀ d < 16, hexValue? (Nat.digitChar d) = some d := by decide
  exact hall (n % 16) (Nat.mod_lt n (by decide))

/-- The printer spells each character. -/
theorem spelledChar_escapeChar (c : Char) : SpelledChar c (escapeChar c) := by
  unfold escapeChar
  by_cases hquote : c = '"'
  · subst hquote
    exact .letter rfl
  by_cases hbackslash : c = '\\'
  · subst hbackslash
    exact .letter rfl
  -- five control characters have letters of their own
  rw [if_neg hquote, if_neg hbackslash]
  split
  · next h => subst h; exact .letter rfl
  split
  · next h => subst h; exact .letter rfl
  split
  · next h => subst h; exact .letter rfl
  split
  · next h => subst h; exact .letter rfl
  split
  · next h => subst h; exact .letter rfl
  split
  · next hcontrol =>
    -- the other ones are written by their numbers, with two zeros in front
    have hunit := SpelledUnit.intro (hexValue?_hexDigit 0) (hexValue?_hexDigit 0)
      (hexValue?_hexDigit (c.toNat / 16)) (hexValue?_hexDigit c.toNat)
    have hvalue : 16 * (16 * (16 * (0 % 16) + 0 % 16) + c.toNat / 16 % 16) + c.toNat % 16 =
        c.toNat := by omega
    rw [hvalue] at hunit
    exact .unit hunit
  · next hcontrol => exact .itself hquote hbackslash (Nat.le_of_not_lt hcontrol)

/-- So the printer spells each text. -/
theorem spelledChars_flatMap_escapeChar (s : List Char) :
    SpelledChars s (s.flatMap escapeChar) := by
  induction s with
  | nil => exact .nil
  | cons c s ih => exact .cons (spelledChar_escapeChar c) ih

end SignalGraph.Json
