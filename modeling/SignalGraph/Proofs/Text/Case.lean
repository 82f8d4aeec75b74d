import Mathlib.Data.List.DropRight
import SignalGraph.Text.Blank

/-!
# Trimming and lower case

Words and numbers are trimmed and compared in lower case. `Lowered` says what counts as lower case
of a text: letters of ASCII text become small ones, and what stands for another character is foreign
to ASCII text again. The Kelvin sign is the exception, it becomes the letter k. So a text either is
ASCII text, and has one lower case, or no lower case of it is plain (`Lowered.eq_or_foreign`):
whatever reads ASCII characters other than k alone cannot tell different rules for other characters
apart. Trimming comes to the same before and after (`Lowered.trimChars`).
-/

namespace SignalGraph.Text

/-! ### Trimming -/

theorem trimChars_eq (cs : List Char) :
    trimChars cs = (cs.dropWhile isBlank).rdropWhile isBlank :=
  rfl

theorem trimChars_trimChars (cs : List Char) : trimChars (trimChars cs) = trimChars cs := by
  -- what is left begins like the list without its leading blanks, that is with no blank
  have hhead : (trimChars cs).dropWhile isBlank = trimChars cs := by
    rw [List.dropWhile_eq_self_iff]
    intro hlength hblank
    obtain ⟨rest, hrest⟩ := List.rdropWhile_prefix isBlank (cs.dropWhile isBlank)
    rw [← trimChars_eq] at hrest
    have hdrop := List.dropWhile_idempotent isBlank cs
    rw [← hrest, List.dropWhile_eq_self_iff] at hdrop
    refine hdrop (by rw [List.length_append]; omega) ?_
    rw [List.getElem_append_left hlength]
    exact hblank
  rw [trimChars_eq (trimChars cs), hhead, trimChars_eq, List.rdropWhile_idempotent]

/-! ### Small letters -/

theorem toNat_toLower (c : Char) : c.toLower.toNat =
    if 65 ≤ c.toNat ∧ c.toNat ≤ 90 then c.toNat + 32 else c.toNat := by
  have hle : (c.val ≥ 'A'.val ∧ c.val ≤ 'Z'.val) ↔ 65 ≤ c.toNat ∧ c.toNat ≤ 90 := Iff.rfl
  unfold Char.toLower
  by_cases h : 65 ≤ c.toNat ∧ c.toNat ≤ 90
  · rw [dif_pos (hle.2 h), if_pos h]
    show (c.val + ('a'.val - 'A'.val)).toNat = c.val.toNat + 32
    obtain ⟨-, hup⟩ := h
    have hup' : c.val.toNat ≤ 90 := hup
    rw [UInt32.toNat_add, show ('a'.val - 'A'.val).toNat = 32 from rfl]
    omega
  · rw [dif_neg (mt hle.1 h), if_neg h]

theorem toLower_eq_self {c : Char} (h : ¬(65 ≤ c.toNat ∧ c.toNat ≤ 90)) : c.toLower = c := by
  rw [← Char.toNat_inj, toNat_toLower, if_neg h]

theorem isBlank_toLower (c : Char) : isBlank c.toLower = isBlank c := by
  by_cases h : 65 ≤ c.toNat ∧ c.toNat ≤ 90
  · have hlower := toNat_toLower c
    rw [if_pos h] at hlower
    have hnot : ∀ d : Char, 65 ≤ d.toNat → d.toNat ≤ 122 → isBlank d = false := by
      intro d hlow hhigh
      simp only [isBlank, Bool.or_eq_false_iff, Bool.and_eq_false_iff, decide_eq_false_iff_not,
        beq_eq_false_iff_ne]
      omega
    rw [hnot c h.1 (by omega), hnot c.toLower (by omega) (by omega)]
  · rw [toLower_eq_self h]

/-! ### Lower case -/

/-- A character that no word and no number is written with: outside ASCII, or the letter k. -/
def Foreign (c : Char) : Prop :=
  128 ≤ c.toNat ∨ c = 'k'

instance (c : Char) : Decidable (Foreign c) :=
  inferInstanceAs (Decidable (_ ∨ _))

theorem Foreign.toLower {c : Char} (h : Foreign c) : Foreign c.toLower := by
  have hself : c.toLower = c := by
    refine toLower_eq_self ?_
    rcases h with h | rfl
    · omega
    · decide
  rwa [hself]

/-- What may stand for a character in lower case. What is said of characters outside ASCII holds of
every case mapping of Unicode: blanks are kept, and all other characters become one or more, among
them one outside ASCII, but for the Kelvin sign. -/
inductive LoweredChar : Char → List Char → Prop
  | ascii {c : Char} (hc : c.toNat < 128) : LoweredChar c [c.toLower]
  | foreign {c : Char} {piece : List Char} (hc : 128 ≤ c.toNat) (hforeign : ∃ d ∈ piece, Foreign d)
      (hblank : ∀ d ∈ piece, isBlank d = isBlank c) : LoweredChar c piece

/-- Whether characters are those of a text in lower case. -/
inductive Lowered : List Char → List Char → Prop
  | nil : Lowered [] []
  | cons {c : Char} {cs piece ds : List Char} (head : LoweredChar c piece) (tail : Lowered cs ds) :
      Lowered (c :: cs) (piece ++ ds)

theorem loweredChar_toLower (c : Char) : LoweredChar c [c.toLower] := by
  by_cases hc : c.toNat < 128
  · exact .ascii hc
  · have hself : c.toLower = c := toLower_eq_self (by omega)
    refine .foreign (by omega) ⟨c, by simp [hself], .inl (by omega)⟩ fun d hd => ?_
    rw [List.mem_singleton.1 hd, hself]

/-- Small letters in place of the capital ones of ASCII text are lower case. -/
theorem lowered_map_toLower (cs : List Char) : Lowered cs (cs.map Char.toLower) := by
  induction cs with
  | nil => exact .nil
  | cons c cs ih => exact .cons (loweredChar_toLower c) ih

namespace Lowered

variable {cs cs' ds ds' : List Char}

theorem append (h : Lowered cs ds) (h' : Lowered cs' ds') : Lowered (cs ++ cs') (ds ++ ds') := by
  induction h with
  | nil => exact h'
  | cons head _ ih =>
    rw [List.append_assoc]
    exact .cons head ih

theorem reverse (h : Lowered cs ds) : Lowered cs.reverse ds.reverse := by
  induction h with
  | nil => exact .nil
  | @cons c cs piece ds head _ ih =>
    have hpiece : LoweredChar c piece.reverse := by
      cases head with
      | ascii hc => exact .ascii hc
      | foreign hc hforeign hblank =>
        exact .foreign hc (by simpa using hforeign) (by simpa using hblank)
    rw [List.reverse_cons, List.reverse_append]
    have hlast : Lowered [c] piece.reverse := by simpa using cons hpiece .nil
    exact ih.append hlast

theorem dropWhile_isBlank (h : Lowered cs ds) :
    Lowered (cs.dropWhile isBlank) (ds.dropWhile isBlank) := by
  induction h with
  | nil => exact .nil
  | @cons c cs piece ds head tail ih =>
    -- what stands for the first character is blank if that is, and begins with no blank otherwise
    have hpiece : piece ≠ [] ∧ ∀ d ∈ piece, isBlank d = isBlank c := by
      cases head with
      | ascii => exact ⟨List.cons_ne_nil _ _, by simp [isBlank_toLower]⟩
      | foreign _ hforeign hblank =>
        obtain ⟨d, hd, -⟩ := hforeign
        exact ⟨List.ne_nil_of_mem hd, hblank⟩
    obtain ⟨hne, hblank⟩ := hpiece
    cases hc : isBlank c with
    | true =>
      rw [List.dropWhile_cons_of_pos hc, List.dropWhile_append_of_pos fun d hd => hc ▸ hblank d hd]
      exact ih
    | false =>
      obtain ⟨d, rest, rfl⟩ := List.exists_cons_of_ne_nil hne
      have hd : isBlank d = false := hc ▸ hblank d List.mem_cons_self
      rw [List.dropWhile_cons_of_neg (by simp [hc]), List.cons_append,
        List.dropWhile_cons_of_neg (by simp [hd])]
      exact .cons head tail

/-- Trimmed text in lower case is lower case of the trimmed text. -/
theorem trimChars (h : Lowered cs ds) : Lowered (trimChars cs) (trimChars ds) :=
  h.dropWhile_isBlank.reverse.dropWhile_isBlank.reverse

/-- A text has one lower case, or contains something foreign that stays foreign. -/
theorem eq_or_foreign (h : Lowered cs ds) :
    ds = cs.map Char.toLower ∨ (∃ c ∈ cs, Foreign c) ∧ ∃ d ∈ ds, Foreign d := by
  induction h with
  | nil => exact .inl rfl
  | @cons c cs piece ds head _ ih =>
    cases head with
    | foreign hc hforeign =>
      obtain ⟨d, hd, hforeign⟩ := hforeign
      exact .inr ⟨⟨c, List.mem_cons_self, .inl hc⟩, d, List.mem_append_left _ hd, hforeign⟩
    | ascii =>
      rcases ih with rfl | ⟨⟨c', hc', hforeign⟩, d, hd, hforeign'⟩
      · exact .inl rfl
      · exact .inr ⟨⟨c', List.mem_cons_of_mem _ hc', hforeign⟩, d, List.mem_append_right _ hd,
          hforeign'⟩

end Lowered

end SignalGraph.Text
