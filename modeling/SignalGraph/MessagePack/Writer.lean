import SignalGraph.Document

/-!
# Writing MessagePack bytes

Every value is written in the shortest form its kind allows: a number in as few bytes as hold it,
and a length in the marker if it fits there.
-/

namespace SignalGraph.MessagePack

/-- A number below `256 ^ width` in so many bytes, the most significant first. -/
def bytesOfNat : Nat → Nat → List UInt8
  | 0, _ => []
  | width + 1, n => .ofNat (n / Nat.pow 256 width) :: bytesOfNat width n

/-- A marker and a number in so many bytes. -/
def marked (marker : UInt8) (width n : Nat) : List UInt8 :=
  marker :: bytesOfNat width n

/-- A number without sign. -/
def writeUnsigned (n : Nat) : List UInt8 :=
  if n < 0x80 then [.ofNat n]
  else if n < 0x100 then marked 0xCC 1 n
  else if n < 0x10000 then marked 0xCD 2 n
  else if n < 0x100000000 then marked 0xCE 4 n
  else marked 0xCF 8 n

/-- A negative number. -/
def writeNegative (i : Int) : List UInt8 :=
  if -0x20 ≤ i then [.ofNat (i + 0x100).toNat]
  else if -0x80 ≤ i then marked 0xD0 1 (i + 0x100).toNat
  else if -0x8000 ≤ i then marked 0xD1 2 (i + 0x10000).toNat
  else if -0x80000000 ≤ i then marked 0xD2 4 (i + 0x100000000).toNat
  else marked 0xD3 8 (i + 0x10000000000000000).toNat

/-- A whole number. -/
def writeInt (i : Int) : List UInt8 :=
  if i < 0 then writeNegative i else writeUnsigned i.toNat

/-- The marker and length of a text of so many bytes. -/
def textHeader (n : Nat) : List UInt8 :=
  if n < 0x20 then [.ofNat (0xA0 + n)]
  else if n < 0x100 then marked 0xD9 1 n
  else if n < 0x10000 then marked 0xDA 2 n
  else marked 0xDB 4 n

/-- The marker and length of so many bytes. -/
def bytesHeader (n : Nat) : List UInt8 :=
  if n < 0x100 then marked 0xC4 1 n
  else if n < 0x10000 then marked 0xC5 2 n
  else marked 0xC6 4 n

/-- The marker and length of an array. -/
def arrayHeader (n : Nat) : List UInt8 :=
  if n < 0x10 then [.ofNat (0x90 + n)]
  else if n < 0x10000 then marked 0xDC 2 n
  else marked 0xDD 4 n

/-- The marker and length of a map. -/
def mapHeader (n : Nat) : List UInt8 :=
  if n < 0x10 then [.ofNat (0x80 + n)]
  else if n < 0x10000 then marked 0xDE 2 n
  else marked 0xDF 4 n

/-- A text. -/
def writeText (s : String) : List UInt8 :=
  let bytes := s.toUTF8.data.toList
  textHeader bytes.length ++ bytes

mutual

/-- The bytes of a document. -/
def write : Document → List UInt8
  | .null => [0xC0]
  | .bool false => [0xC2]
  | .bool true => [0xC3]
  | .unsigned n => writeUnsigned n
  | .signed i => writeInt i
  | .float x => marked 0xCB 8 x.toBits.toNat
  | .text s => writeText s
  | .bytes b => bytesHeader b.length ++ b
  | .array items => arrayHeader items.length ++ writeItems items
  | .map members => mapHeader members.length ++ writeMembers members
  | .extension tag data => marked 0xC9 4 data.length ++ tag :: data
  | .invalid => [0xC1]

/-- The bytes of the items of an array. -/
def writeItems : List Document → List UInt8
  | [] => []
  | d :: ds => write d ++ writeItems ds

/-- The bytes of the members of a map. -/
def writeMembers : List (Document × Document) → List UInt8
  | [] => []
  | (key, d) :: rest => write key ++ write d ++ writeMembers rest

end

end SignalGraph.MessagePack
