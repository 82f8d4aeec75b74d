import Mathlib.Data.List.Nodup
import SignalGraph.Dictionary

/-!
# Dictionaries and their entries

An entry of a dictionary is what is found under its key, and a dictionary is determined by what is
found in it (`Dictionary.Sorted.eq_of_find?`) as well as by its entries in any order
(`Dictionary.ofList_eq_of_perm`). Other values may stand under the same keys
(`Dictionary.mapValues`).
-/

namespace SignalGraph.Dictionary

variable {α : Type} {d d' : Dictionary α} {key : String} {value : α}

/-- Every entry of a sorted dictionary is found under its key. -/
theorem find?_eq_some_of_mem (hd : Sorted d) (h : (key, value) ∈ d) :
    find? key d = some value := by
  induction d with
  | nil => cases h
  | cons entry rest ih =>
    obtain ⟨hfirst, hrest⟩ := List.pairwise_cons.1 hd
    obtain ⟨k, v⟩ := entry
    unfold find?
    rcases List.mem_cons.1 h with heq | hmem
    · cases heq
      rw [if_pos rfl]
    · have hlt : k < key := hfirst _ hmem
      have hne : k ≠ key := by
        rintro rfl
        exact String.lt_irrefl _ hlt
      rw [if_neg hne]
      exact ih hrest hmem

theorem mem_of_find?_eq_some (h : find? key d = some value) : (key, value) ∈ d := by
  induction d with
  | nil => cases h
  | cons entry rest ih =>
    obtain ⟨k, v⟩ := entry
    unfold find? at h
    split at h
    · next hkey =>
      cases h
      rw [hkey]
      exact List.mem_cons_self
    · exact List.mem_cons_of_mem _ (ih h)

theorem mem_keys_iff : key ∈ keys d ↔ (find? key d).isSome := by
  induction d with
  | nil => simp [keys, find?]
  | cons entry rest ih =>
    obtain ⟨k, v⟩ := entry
    rw [keys, List.map_cons, List.mem_cons, find?]
    by_cases hkey : k = key
    · simp [hkey]
    · rw [if_neg hkey, ← ih, keys]
      exact or_iff_right (Ne.symm hkey)

theorem Sorted.nodup_keys (hd : Sorted d) : (keys d).Nodup := by
  refine List.pairwise_map.2 (List.Pairwise.imp ?_ hd)
  rintro a b hlt heq
  exact String.lt_irrefl _ (heq ▸ hlt)

/-! ### What determines a dictionary -/

theorem Sorted.eq_of_perm (h : d.Sorted) (h' : d'.Sorted) (hperm : d.Perm d') : d = d' :=
  hperm.eq_of_pairwise (fun _ _ _ _ hlt hgt => (String.lt_asymm hlt hgt).elim) h h'

/-- Dictionaries with the same entries are equal. -/
theorem Sorted.eq_of_find? (h : d.Sorted) (h' : d'.Sorted)
    (hfind : ∀ key, find? key d = find? key d') : d = d' := by
  have hmem : ∀ entry : String × α, entry ∈ d ↔ entry ∈ d' := by
    rintro ⟨key, value⟩
    constructor
    · intro hentry
      exact mem_of_find?_eq_some ((hfind key).symm.trans (find?_eq_some_of_mem h hentry))
    · intro hentry
      exact mem_of_find?_eq_some ((hfind key).trans (find?_eq_some_of_mem h' hentry))
  exact h.eq_of_perm h'
    ((List.perm_ext_iff_of_nodup h.nodup_keys.of_map h'.nodup_keys.of_map).2 hmem)

/-! ### Dictionaries from lists of entries -/

/-- A value under a new key is one more entry. -/
theorem insert_perm (value : α) (h : key ∉ keys d) :
    (insert key value d).Perm ((key, value) :: d) := by
  induction d with
  | nil => exact .refl _
  | cons entry rest ih =>
    obtain ⟨hne, hrest⟩ := not_or.1 (mt List.mem_cons.2 h)
    unfold insert
    split
    · exact .refl _
    · exact ((ih hrest).cons entry).trans (.swap _ _ _)

theorem foldl_insert_perm (entries : List (String × α)) (h : (keys (d ++ entries)).Nodup) :
    (entries.foldl (fun d entry => d.insert entry.1 entry.2) d).Perm (d ++ entries) := by
  induction entries generalizing d with
  | nil => rw [List.append_nil]; exact .refl _
  | cons entry rest ih =>
    have hmiddle : (d ++ entry :: rest).Perm (entry :: (d ++ rest)) := List.perm_middle
    have hnodup : (keys (entry :: (d ++ rest))).Nodup := (hmiddle.map Prod.fst).nodup_iff.1 h
    have hnew : entry.1 ∉ keys d := fun hmem =>
      (List.nodup_cons.1 hnodup).1 (by
        rw [List.map_append]
        exact List.mem_append_left _ hmem)
    have hinsert : (insert entry.1 entry.2 d ++ rest).Perm (entry :: (d ++ rest)) :=
      (insert_perm entry.2 hnew).append_right rest
    exact (ih ((hinsert.map Prod.fst).nodup_iff.2 hnodup)).trans (hinsert.trans hmiddle.symm)

theorem sorted_ofList (entries : List (String × α)) : (ofList entries).Sorted :=
  List.foldlRecOn entries _ (motive := Sorted) List.Pairwise.nil fun _ hd _ _ => sorted_insert hd

/-- A dictionary is read back from its entries in any order. -/
theorem ofList_eq_of_perm {entries : List (String × α)} (hd : d.Sorted)
    (h : entries.Perm d) : ofList entries = d := by
  have hnodup : (keys entries).Nodup := (h.map Prod.fst).nodup_iff.2 hd.nodup_keys
  have hperm : (ofList entries).Perm entries := foldl_insert_perm (d := []) entries hnodup
  exact (sorted_ofList entries).eq_of_perm hd (hperm.trans h)

/-! ### Other values under the same keys -/

section MapValues

variable {β : Type} (f : α → β)

/-- The dictionary with other values under the same keys. -/
def mapValues (d : Dictionary α) : Dictionary β :=
  d.map (Prod.map id f)

theorem keys_mapValues (d : Dictionary α) : keys (mapValues f d) = keys d := by
  rw [keys, mapValues, List.map_map]
  rfl

theorem mapValues_cons (d : Dictionary α) (key : String) (value : α) :
    mapValues f ((key, value) :: d) = (key, f value) :: mapValues f d :=
  rfl

theorem find?_mapValues (d : Dictionary α) (key : String) :
    find? key (mapValues f d) = (find? key d).map f := by
  induction d with
  | nil => rfl
  | cons entry rest ih =>
    obtain ⟨key', value⟩ := entry
    rw [mapValues_cons, find?, find?, ih]
    split <;> rfl

theorem mapValues_insert (d : Dictionary α) (key : String) (value : α) :
    mapValues f (insert key value d) = insert key (f value) (mapValues f d) := by
  induction d with
  | nil => rfl
  | cons entry rest ih =>
    obtain ⟨key', value'⟩ := entry
    rw [mapValues_cons, insert, insert, ← ih]
    split
    · rfl
    · split <;> rfl

end MapValues

end SignalGraph.Dictionary
