import Mathlib.Algebra.Group.Int.Defs
import Mathlib.Algebra.Group.Nat.Defs
import SignalGraph.Document

/-!
# Documents with a notation

Not every document can be written: a notation has forms for numbers of so many bits and lengths of
so many digits, and its readers go down so many levels.
-/

namespace SignalGraph.Document

mutual

/-- Whether each number has a form of 64 bits, the negative ones with a sign and the others without,
and nothing is without a value. -/
def NumbersFit : Document → Prop
  | .unsigned n => n < 2 ^ 64
  | .signed i => -2 ^ 63 ≤ i ∧ i < 0
  | .array items => ItemsFit items
  | .map members => MembersFit members
  | .invalid => False
  | .null | .bool _ | .float _ | .text _ | .bytes _ | .extension _ _ => True

/-- Whether the numbers in all items fit. -/
def ItemsFit : List Document → Prop
  | [] => True
  | d :: ds => d.NumbersFit ∧ ItemsFit ds

/-- Whether the numbers in all keys and values fit. -/
def MembersFit : List (Document × Document) → Prop
  | [] => True
  | (key, d) :: rest => key.NumbersFit ∧ d.NumbersFit ∧ MembersFit rest

end

mutual

/-- Whether all texts, in bytes, and all arrays and maps are shorter than a limit. -/
def LengthsBelow (limit : Nat) : Document → Prop
  | .text s => s.utf8ByteSize < limit
  | .bytes b => b.length < limit
  | .extension _ data => data.length < limit
  | .array items => items.length < limit ∧ ItemsBelow limit items
  | .map members => members.length < limit ∧ MembersBelow limit members
  | .null | .bool _ | .unsigned _ | .signed _ | .float _ | .invalid => True

/-- Whether everything in all items is shorter than a limit. -/
def ItemsBelow (limit : Nat) : List Document → Prop
  | [] => True
  | d :: ds => d.LengthsBelow limit ∧ ItemsBelow limit ds

/-- Whether everything in all keys and values is shorter than a limit. -/
def MembersBelow (limit : Nat) : List (Document × Document) → Prop
  | [] => True
  | (key, d) :: rest => key.LengthsBelow limit ∧ d.LengthsBelow limit ∧ MembersBelow limit rest

end

mutual

instance decidableLengthsBelow (limit : Nat) : (d : Document) → Decidable (d.LengthsBelow limit)
  | .text s => inferInstanceAs (Decidable (s.utf8ByteSize < limit))
  | .bytes b => inferInstanceAs (Decidable (b.length < limit))
  | .extension _ data => inferInstanceAs (Decidable (data.length < limit))
  | .array items =>
    have := decidableItemsBelow limit items
    inferInstanceAs (Decidable (items.length < limit ∧ ItemsBelow limit items))
  | .map members =>
    have := decidableMembersBelow limit members
    inferInstanceAs (Decidable (members.length < limit ∧ MembersBelow limit members))
  | .null | .bool _ | .unsigned _ | .signed _ | .float _ | .invalid => isTrue trivial

instance decidableItemsBelow (limit : Nat) :
    (ds : List Document) → Decidable (ItemsBelow limit ds)
  | [] => isTrue trivial
  | d :: ds =>
    have := decidableLengthsBelow limit d
    have := decidableItemsBelow limit ds
    inferInstanceAs (Decidable (d.LengthsBelow limit ∧ ItemsBelow limit ds))

instance decidableMembersBelow (limit : Nat) :
    (ms : List (Document × Document)) → Decidable (MembersBelow limit ms)
  | [] => isTrue trivial
  | (key, d) :: rest =>
    have := decidableLengthsBelow limit key
    have := decidableLengthsBelow limit d
    have := decidableMembersBelow limit rest
    inferInstanceAs (Decidable
      (key.LengthsBelow limit ∧ d.LengthsBelow limit ∧ MembersBelow limit rest))

end

mutual

/-- How deep arrays, maps and extensions are nested. -/
def depth : Document → Nat
  | .array items => depthOfItems items + 1
  | .map members => depthOfMembers members + 1
  | .extension _ _ => 1
  | _ => 0

/-- How deep the deepest of the items is nested. -/
def depthOfItems : List Document → Nat
  | [] => 0
  | d :: ds => max d.depth (depthOfItems ds)

/-- How deep the deepest of the keys and values is nested. -/
def depthOfMembers : List (Document × Document) → Nat
  | [] => 0
  | (key, d) :: rest => max (max key.depth d.depth) (depthOfMembers rest)

end

theorem itemsFit_iff {ds : List Document} : ItemsFit ds ↔ ∀ d ∈ ds, d.NumbersFit := by
  induction ds with
  | nil => simp [ItemsFit]
  | cons d ds ih => simp [ItemsFit, ih]

theorem membersFit_iff {ms : List (Document × Document)} :
    MembersFit ms ↔ ∀ m ∈ ms, m.1.NumbersFit ∧ m.2.NumbersFit := by
  induction ms with
  | nil => simp [MembersFit]
  | cons m ms ih => simp [MembersFit, ih, and_assoc]

end SignalGraph.Document
