import Mathlib
import SignalGraph.MessagePack.Reader
import SignalGraph.MessagePack.Writer
import SignalGraph.Proofs.Document

/-!
# Reading what was written

The reader takes exactly the bytes that the writer made of a document and gives the document back,
whatever follows them (`MessagePack.readWithin_write`), if there is a form for each number
(`Document.NumbersFit`) and each length (`Document.LengthsBelow`) of the document, and it is not
nested deeper than the reader goes.

The notation has several forms for each kind of value. Each form is a marker and a number in a fixed
count of bytes, which `take?_bytesOfNat` reads back; the lemmas about headers go through the forms,
and the induction over the document sees only what the headers say.
-/

namespace SignalGraph.MessagePack

/-! ### Numbers in bytes -/

/-- Bytes read from the left are put together to the number modulo the width. -/
@[simp] theorem length_bytesOfNat (width n : Nat) : (bytesOfNat width n).length = width := by
  induction width with
  | zero => rfl
  | succ width ih => rw [bytesOfNat, List.length_cons, ih]

theorem foldl_bytesOfNat (width n acc : Nat) :
    (bytesOfNat width n).foldl (fun n b => 256 * n + b.toNat) acc =
      256 ^ width * acc + n % 256 ^ width := by
  induction width generalizing acc with
  | zero => simp [bytesOfNat, Nat.mod_one]
  | succ width ih =>
    have hbyte : (UInt8.ofNat (n / 256 ^ width)).toNat = n / 256 ^ width % 256 := by simp
    have hmod : n % 256 ^ (width + 1) =
        n % 256 ^ width + 256 ^ width * (n / 256 ^ width % 256) := by
      rw [Nat.pow_succ, Nat.mod_mul]
    rw [bytesOfNat, List.foldl_cons, ih, Nat.pow_eq, hbyte, hmod]
    ring

/-- A number that fits its bytes is read back from them. -/
theorem natOfBytes_bytesOfNat {width n : Nat} (h : n < 256 ^ width) :
    natOfBytes (bytesOfNat width n) = n := by
  rw [natOfBytes, foldl_bytesOfNat, Nat.mul_zero, Nat.zero_add, Nat.mod_eq_of_lt h]

/-- The bytes taken are those written first. -/
theorem take?_append (taken rest : List UInt8) :
    take? taken.length (taken ++ rest) = some (taken, rest) := by
  simp [take?]

theorem take?_bytesOfNat (width n : Nat) (rest : List UInt8) :
    take? width (bytesOfNat width n ++ rest) = some (bytesOfNat width n, rest) := by
  have htake := take?_append (bytesOfNat width n) rest
  rwa [length_bytesOfNat] at htake

/-- A length is read back after its marker. -/
theorem sized_bytesOfNat (width : Nat) {n : Nat} (h : n < 256 ^ width) (body : Nat → Body)
    (rest : List UInt8) : sized width body (bytesOfNat width n ++ rest) = some (body n, rest) := by
  simp only [sized, take?_bytesOfNat, Option.map_some, natOfBytes_bytesOfNat h]

/-! ### Headers -/

theorem toNat_marker {n : Nat} (h : n < 0x100) : (UInt8.ofNat n).toNat = n := by
  simpa using h

/-- The header of a text is read as its length. -/
theorem body?_textHeader {n : Nat} (h : n < 2 ^ 32) (rest : List UInt8) :
    body? (textHeader n ++ rest) = some (.text n, rest) := by
  unfold textHeader
  split
  · next hn =>
    simp only [List.singleton_append, body?, toNat_marker (show 0xA0 + n < 0x100 by omega)]
    rw [if_neg (by omega), if_neg (by omega), if_neg (by omega), if_pos (by omega),
      Nat.add_sub_cancel_left]
  · split
    · exact sized_bytesOfNat 1 (by omega) .text rest
    · split
      · exact sized_bytesOfNat 2 (by omega) .text rest
      · exact sized_bytesOfNat 4 (by omega) .text rest

theorem body?_bytesHeader {n : Nat} (h : n < 2 ^ 32) (rest : List UInt8) :
    body? (bytesHeader n ++ rest) = some (.bytes n, rest) := by
  unfold bytesHeader
  split
  · exact sized_bytesOfNat 1 (by omega) .bytes rest
  · split
    · exact sized_bytesOfNat 2 (by omega) .bytes rest
    · exact sized_bytesOfNat 4 (by omega) .bytes rest

/-- The header of an array is read as its length. -/
theorem body?_arrayHeader {n : Nat} (h : n < 2 ^ 32) (rest : List UInt8) :
    body? (arrayHeader n ++ rest) = some (.array n, rest) := by
  unfold arrayHeader
  split
  · next hn =>
    simp only [List.singleton_append, body?, toNat_marker (show 0x90 + n < 0x100 by omega)]
    rw [if_neg (by omega), if_neg (by omega), if_pos (by omega), Nat.add_sub_cancel_left]
  · split
    · exact sized_bytesOfNat 2 (by omega) .array rest
    · exact sized_bytesOfNat 4 (by omega) .array rest

theorem body?_mapHeader {n : Nat} (h : n < 2 ^ 32) (rest : List UInt8) :
    body? (mapHeader n ++ rest) = some (.map n, rest) := by
  unfold mapHeader
  split
  · next hn =>
    simp only [List.singleton_append, body?, toNat_marker (show 0x80 + n < 0x100 by omega)]
    rw [if_neg (by omega), if_pos (by omega), Nat.add_sub_cancel_left]
  · split
    · exact sized_bytesOfNat 2 (by omega) .map rest
    · exact sized_bytesOfNat 4 (by omega) .map rest

/-! ### Numbers and texts -/

variable {depth : Nat} {rest : List UInt8}

/-- A number of some width is read back once its marker is known. -/
theorem readWithin_unsigned {width n : Nat} (h : n < 256 ^ width) {bytes : List UInt8}
    (hbody : body? bytes = some (.unsigned width, bytesOfNat width n ++ rest)) :
    readWithin depth bytes = some (.unsigned n, rest) := by
  unfold readWithin
  simp only [hbody, take?_bytesOfNat, Option.map_some, natOfBytes_bytesOfNat h]

/-- Natural numbers are read back from each of their five spellings. -/
theorem readWithin_writeUnsigned {n : Nat} (h : n < 2 ^ 64) (rest : List UInt8) :
    readWithin depth (writeUnsigned n ++ rest) = some (.unsigned n, rest) := by
  unfold writeUnsigned
  split
  · next hn =>
    have hbody : body? ([.ofNat n] ++ rest) = some (.complete (.unsigned n), rest) := by
      simp only [List.singleton_append, body?, toNat_marker (show n < 0x100 by omega)]
      rw [if_pos hn]
    unfold readWithin
    rw [hbody]
  · split
    · exact readWithin_unsigned (by omega) rfl
    · split
      · exact readWithin_unsigned (by omega) rfl
      · split
        · exact readWithin_unsigned (by omega) rfl
        · exact readWithin_unsigned (by omega) rfl

/-- The complement of a negative number in a width is read back as the number. -/
theorem intOfBytes_bytesOfNat {width : Nat} {i : Int} {modulus : Nat}
    (hmodulus : 256 ^ width = 2 * modulus) (hmin : -(modulus : Int) ≤ i) (hneg : i < 0) :
    intOfBytes (bytesOfNat width (i + 2 * modulus).toNat) = i := by
  have hlt : (i + 2 * modulus).toNat < 256 ^ width := by omega
  simp only [intOfBytes, natOfBytes_bytesOfNat hlt, length_bytesOfNat, Nat.pow_eq, hmodulus]
  rw [if_neg (by omega)]
  omega

/-- A negative number of some width is read back once its marker is known. -/
theorem readWithin_signed {width : Nat} {i : Int} (modulus : Nat)
    (hmodulus : 256 ^ width = 2 * modulus) (hmin : -(modulus : Int) ≤ i) (hneg : i < 0)
    {bytes : List UInt8} (hbody : body? bytes =
      some (.signed width, bytesOfNat width (i + 2 * modulus).toNat ++ rest)) :
    readWithin depth bytes = some (.signed i, rest) := by
  unfold readWithin
  simp only [hbody, take?_bytesOfNat, Option.map_some, intOfBytes_bytesOfNat hmodulus hmin hneg]

/-- Negative numbers are read back from each of their five spellings. -/
theorem readWithin_writeInt {i : Int} (hmin : -2 ^ 63 ≤ i) (hneg : i < 0) (rest : List UInt8) :
    readWithin depth (writeInt i ++ rest) = some (.signed i, rest) := by
  unfold writeInt
  rw [if_pos hneg]
  unfold writeNegative
  split
  · next hi =>
    have hbody :
        body? ([.ofNat (i + 0x100).toNat] ++ rest) = some (.complete (.signed i), rest) := by
      have hvalue : ((i + 0x100).toNat : Int) - 0x100 = i := by omega
      -- the marker holds the number itself, so all other ranges of markers are excluded
      simp only [List.singleton_append, body?,
        toNat_marker (show (i + 0x100).toNat < 0x100 by omega)]
      rw [if_neg (by omega), if_neg (by omega), if_neg (by omega), if_neg (by omega),
        if_pos (by omega), hvalue]
    unfold readWithin
    rw [hbody]
  · split
    · exact readWithin_signed 0x80 (by decide) (by omega) hneg rfl
    · split
      · exact readWithin_signed 0x8000 (by decide) (by omega) hneg rfl
      · split
        · exact readWithin_signed 0x80000000 (by decide) (by omega) hneg rfl
        · exact readWithin_signed 0x8000000000000000 (by decide) (by omega) hneg rfl

theorem readWithin_float (x : Float) (rest : List UInt8) :
    readWithin depth (marked 0xCB 8 x.toBits.toNat ++ rest) = some (.float x, rest) := by
  have hbody : body? (marked 0xCB 8 x.toBits.toNat ++ rest) =
      some (.float64, bytesOfNat 8 x.toBits.toNat ++ rest) := rfl
  have hlt : x.toBits.toNat < 256 ^ 8 := x.toBits.toNat_lt
  unfold readWithin
  simp only [hbody, take?_bytesOfNat, Option.map_some, natOfBytes_bytesOfNat hlt,
    UInt64.ofNat_toNat, Float.ofBits_toBits]

/-- The bytes of a text are read back as the text. -/
theorem textOfBytes_toUTF8 (s : String) : textOfBytes s.toUTF8.data.toList = .text s := by
  have hbytes : (⟨s.toUTF8.data.toList.toArray⟩ : ByteArray) = s.toByteArray := by
    rw [Array.toArray_toList]
    rfl
  have hutf8 : String.fromUTF8? s.toByteArray = some s := dif_pos s.isValidUTF8
  rw [textOfBytes, hbytes, hutf8]

theorem readWithin_writeText {s : String} (h : s.utf8ByteSize < 2 ^ 32) (rest : List UInt8) :
    readWithin depth (writeText s ++ rest) = some (.text s, rest) := by
  have hlength : s.toUTF8.data.toList.length < 2 ^ 32 := by simpa using h
  unfold readWithin
  simp only [writeText, List.append_assoc, body?_textHeader hlength, take?_append, Option.map_some,
    textOfBytes_toUTF8]

theorem readWithin_writeBytes {b : List UInt8} (h : b.length < 2 ^ 32) (rest : List UInt8) :
    readWithin depth (bytesHeader b.length ++ b ++ rest) = some (.bytes b, rest) := by
  unfold readWithin
  simp only [List.append_assoc, body?_bytesHeader h, take?_append, Option.map_some]

theorem readWithin_writeExtension {tag : UInt8} {data : List UInt8} (h : data.length < 2 ^ 32)
    (rest : List UInt8) :
    readWithin (depth + 1) (marked 0xC9 4 data.length ++ tag :: data ++ rest) =
      some (.extension tag data, rest) := by
  have hbody : body? (marked 0xC9 4 data.length ++ (tag :: (data ++ rest))) =
      some (.extension data.length, tag :: (data ++ rest)) :=
    sized_bytesOfNat 4 h .extension _
  unfold readWithin
  simp only [List.append_assoc, List.cons_append, hbody, take?_append, Option.map_some]

/-! ### Documents -/

mutual

/-- The reader takes exactly what was written of a document and gives the document back. -/
theorem readWithin_write {d : Document} {depth : Nat} (hnumbers : d.NumbersFit)
    (hlengths : d.LengthsBelow (2 ^ 32)) (hdepth : d.depth ≤ depth) (rest : List UInt8) :
    readWithin depth (write d ++ rest) = some (d, rest) := by
  cases d with
  | null => unfold readWithin; rfl
  | bool b => cases b <;> (unfold readWithin; rfl)
  | unsigned n => exact readWithin_writeUnsigned hnumbers rest
  | signed i => exact readWithin_writeInt hnumbers.1 hnumbers.2 rest
  | float x => exact readWithin_float x rest
  | text s => exact readWithin_writeText hlengths rest
  | bytes b => exact readWithin_writeBytes hlengths rest
  | extension tag data =>
    obtain ⟨depth, rfl⟩ := Nat.exists_eq_add_of_le' hdepth
    exact readWithin_writeExtension hlengths rest
  | array items =>
    obtain ⟨hlength, hitems⟩ := hlengths
    obtain ⟨depth, rfl⟩ := Nat.exists_eq_add_of_le' (Nat.one_le_of_lt hdepth)
    have hmany := many_writeItems hnumbers hitems (Nat.le_of_succ_le_succ hdepth) rest
    unfold readWithin
    simp only [write, List.append_assoc, body?_arrayHeader hlength, hmany, Option.map_some]
  | map members =>
    obtain ⟨hlength, hmembers⟩ := hlengths
    obtain ⟨depth, rfl⟩ := Nat.exists_eq_add_of_le' (Nat.one_le_of_lt hdepth)
    have hmany := manyPairs_writeMembers hnumbers hmembers (Nat.le_of_succ_le_succ hdepth) rest
    unfold readWithin
    simp only [write, List.append_assoc, body?_mapHeader hlength, hmany, Option.map_some]
  | invalid => exact hnumbers.elim

/-- The items of an array are read back one after the other. -/
theorem many_writeItems {ds : List Document} {depth : Nat} (hnumbers : Document.ItemsFit ds)
    (hlengths : Document.ItemsBelow (2 ^ 32) ds) (hdepth : Document.depthOfItems ds ≤ depth)
    (rest : List UInt8) :
    many (readWithin depth) ds.length (writeItems ds ++ rest) = some (ds, rest) := by
  cases ds with
  | nil => rfl
  | cons d ds =>
    obtain ⟨hd, hds⟩ := max_le_iff.1 hdepth
    have hhead := readWithin_write hnumbers.1 hlengths.1 hd (writeItems ds ++ rest)
    have htail := many_writeItems hnumbers.2 hlengths.2 hds rest
    simp only [writeItems, List.append_assoc, List.length_cons, many, hhead, htail]

/-- The members of a map are read back one after the other, key by key. -/
theorem manyPairs_writeMembers {ms : List (Document × Document)} {depth : Nat}
    (hnumbers : Document.MembersFit ms) (hlengths : Document.MembersBelow (2 ^ 32) ms)
    (hdepth : Document.depthOfMembers ms ≤ depth) (rest : List UInt8) :
    manyPairs (readWithin depth) ms.length (writeMembers ms ++ rest) = some (ms, rest) := by
  cases ms with
  | nil => rfl
  | cons member ms =>
    obtain ⟨key, d⟩ := member
    obtain ⟨hkd, hms⟩ := max_le_iff.1 hdepth
    obtain ⟨hkey, hd⟩ := max_le_iff.1 hkd
    have hfirst :=
      readWithin_write hnumbers.1 hlengths.1 hkey (write d ++ (writeMembers ms ++ rest))
    have hsecond := readWithin_write hnumbers.2.1 hlengths.2.1 hd (writeMembers ms ++ rest)
    have htail := manyPairs_writeMembers hnumbers.2.2 hlengths.2.2 hms rest
    simp only [writeMembers, List.append_assoc, List.length_cons, manyPairs, hfirst, hsecond, htail]

end

/-- A document is read from what was written of it, whatever follows. -/
theorem read?_write {d : Document} (hnumbers : d.NumbersFit) (hlengths : d.LengthsBelow (2 ^ 32))
    (hdepth : d.depth ≤ maxDepth) (rest : List UInt8) : read? (write d ++ rest) = some d := by
  rw [read?, readWithin_write hnumbers hlengths hdepth rest, Option.map_some]

end SignalGraph.MessagePack
