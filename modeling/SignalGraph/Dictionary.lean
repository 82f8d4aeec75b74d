/-!
# Dictionaries

A dictionary is a list of keyed entries in strictly increasing order of their keys, so two
dictionaries with the same entries are equal. `find?_insert` says what an insertion changes and
`sorted_insert` that it keeps the order.
-/

namespace SignalGraph

/-- Keyed entries, in increasing order of their keys. -/
abbrev Dictionary (α : Type) := List (String × α)

namespace Dictionary

variable {α : Type}

/-- The entry under a key. -/
def find? (key : String) : Dictionary α → Option α
  | [] => none
  | (k, v) :: rest => if k = key then some v else find? key rest

def contains (key : String) (d : Dictionary α) : Bool :=
  (find? key d).isSome

/-- The keys, in increasing order. -/
def keys (d : Dictionary α) : List String :=
  d.map Prod.fst

/-- Puts an entry under a key, in place of an older one. -/
def insert (key : String) (value : α) : Dictionary α → Dictionary α
  | [] => [(key, value)]
  | (k, v) :: rest =>
    if key < k then (key, value) :: (k, v) :: rest
    else if key = k then (key, value) :: rest
    else (k, v) :: insert key value rest

/-- Takes the entry under a key away. -/
def erase (key : String) (d : Dictionary α) : Dictionary α :=
  d.filter fun entry => entry.1 != key

/-- The dictionary of a list of entries; of entries under one key the last one counts. -/
def ofList (entries : List (String × α)) : Dictionary α :=
  entries.foldl (fun d entry => d.insert entry.1 entry.2) []

/-- The order of a dictionary. -/
def Sorted (d : Dictionary α) : Prop :=
  d.Pairwise fun a b => a.1 < b.1

@[simp] theorem find?_insert (key k : String) (value : α) (d : Dictionary α) :
    find? k (insert key value d) = if key = k then some value else find? k d := by
  induction d with
  | nil => simp [insert, find?]
  | cons entry rest ih =>
    obtain ⟨k', v'⟩ := entry
    simp only [insert]
    split
    · simp only [find?]
    · split
      · next h => subst h; by_cases hk : key = k <;> simp [find?, hk]
      · simp only [find?, ih]
        by_cases hk : k' = k <;> by_cases hkey : key = k <;> simp_all

theorem mem_insert {key : String} {value : α} {d : Dictionary α} {entry : String × α}
    (h : entry ∈ insert key value d) : entry = (key, value) ∨ entry ∈ d := by
  induction d with
  | nil => simpa [insert] using h
  | cons head rest ih =>
    simp only [insert] at h
    split at h
    · simpa using h
    · split at h
      · rcases List.mem_cons.1 h with h | h
        · exact .inl h
        · exact .inr (List.mem_cons_of_mem _ h)
      · rcases List.mem_cons.1 h with h | h
        · exact .inr (h ▸ List.mem_cons_self)
        · exact (ih h).imp id (List.mem_cons_of_mem _)

/-- Insertion keeps the order. -/
theorem sorted_insert {key : String} {value : α} {d : Dictionary α} (h : Sorted d) :
    Sorted (insert key value d) := by
  induction d with
  | nil => exact List.pairwise_singleton _ _
  | cons head rest ih =>
    obtain ⟨hd, hrest⟩ := List.pairwise_cons.1 h
    simp only [insert]
    split
    · next hlt =>
      refine List.pairwise_cons.2 ⟨fun entry he => ?_, h⟩
      rcases List.mem_cons.1 he with rfl | he
      · exact hlt
      · exact String.lt_trans hlt (hd _ he)
    · split
      · next heq => exact List.pairwise_cons.2 ⟨fun entry he => heq ▸ hd _ he, hrest⟩
      · next hnlt hne =>
        refine List.pairwise_cons.2 ⟨fun entry he => ?_, ih hrest⟩
        rcases mem_insert he with rfl | he
        · exact Std.lt_of_le_of_ne (String.not_lt.1 hnlt) (Ne.symm hne)
        · exact hd _ he

end Dictionary

end SignalGraph
