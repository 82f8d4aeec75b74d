import SignalGraph.Document

/-!
# Reading MessagePack bytes

A value starts with a marker byte that says what follows and often how much. Arrays, maps and
extensions may be nested 1023 deep. A text that is not UTF-8 is read as bytes, and the marker `C1`
is never used.
-/

namespace SignalGraph.MessagePack

/-- Arrays, maps and extensions may be nested this deep. -/
def maxDepth : Nat := 1023

/-- The number that bytes write, the most significant first. -/
def natOfBytes (bytes : List UInt8) : Nat :=
  bytes.foldl (fun n b => 256 * n + b.toNat) 0

/-- The integer that bytes write in two's complement. -/
def intOfBytes (bytes : List UInt8) : Int :=
  let n := natOfBytes bytes
  let modulus := Nat.pow 256 bytes.length
  if 2 * n < modulus then n else (n : Int) - modulus

/-- Takes exactly so many bytes. -/
def take? (n : Nat) (bytes : List UInt8) : Option (List UInt8 × List UInt8) :=
  let taken := bytes.take n
  if taken.length = n then some (taken, bytes.drop n) else none

/-- The binary64 number of a binary32 bit pattern. -/
def floatOfBits32 (bits : Nat) : Float :=
  let field := bits / Nat.pow 2 23 % Nat.pow 2 8
  let fraction := bits % Nat.pow 2 23
  let magnitude :=
    if field = 255 then if fraction = 0 then 1.0 / 0.0 else 0.0 / 0.0
    else if field = 0 then Float.ofNat fraction / Float.ofNat (Nat.pow 2 149)
    else if field < 150 then
      Float.ofNat (Nat.pow 2 23 + fraction) / Float.ofNat (Nat.pow 2 (150 - field))
    else Float.ofNat ((Nat.pow 2 23 + fraction) * Nat.pow 2 (field - 150))
  if bits / Nat.pow 2 31 % 2 = 1 then -magnitude else magnitude

/-- The document of the bytes of a text. -/
def textOfBytes (bytes : List UInt8) : Document :=
  match String.fromUTF8? ⟨bytes.toArray⟩ with
  | some s => .text s
  | none => .bytes bytes

/-- What follows a marker. -/
inductive Body where
  /-- Nothing: the value is complete. -/
  | complete (value : Document)
  /-- A number in so many bytes. -/
  | unsigned (width : Nat)
  | signed (width : Nat)
  | float32
  | float64
  /-- So many bytes. -/
  | text (length : Nat)
  | bytes (length : Nat)
  | extension (length : Nat)
  /-- So many values. -/
  | array (length : Nat)
  /-- So many pairs of values. -/
  | map (length : Nat)

/-- What follows a marker whose length stands in the next `width` bytes. -/
def sized (width : Nat) (body : Nat → Body) (bytes : List UInt8) : Option (Body × List UInt8) :=
  (take? width bytes).map fun (size, rest) => (body (natOfBytes size), rest)

/-- What the marker at the front of the bytes says. -/
def body? : List UInt8 → Option (Body × List UInt8)
  | [] => none
  | marker :: rest =>
    let m := marker.toNat
    if m < 0x80 then some (.complete (.unsigned m), rest)
    else if m < 0x90 then some (.map (m - 0x80), rest)
    else if m < 0xA0 then some (.array (m - 0x90), rest)
    else if m < 0xC0 then some (.text (m - 0xA0), rest)
    else if 0xE0 ≤ m then some (.complete (.signed ((m : Int) - 0x100)), rest)
    else
      match m with
      | 0xC0 => some (.complete .null, rest)
      | 0xC2 => some (.complete (.bool false), rest)
      | 0xC3 => some (.complete (.bool true), rest)
      | 0xC4 => sized 1 .bytes rest
      | 0xC5 => sized 2 .bytes rest
      | 0xC6 => sized 4 .bytes rest
      | 0xC7 => sized 1 .extension rest
      | 0xC8 => sized 2 .extension rest
      | 0xC9 => sized 4 .extension rest
      | 0xCA => some (.float32, rest)
      | 0xCB => some (.float64, rest)
      | 0xCC => some (.unsigned 1, rest)
      | 0xCD => some (.unsigned 2, rest)
      | 0xCE => some (.unsigned 4, rest)
      | 0xCF => some (.unsigned 8, rest)
      | 0xD0 => some (.signed 1, rest)
      | 0xD1 => some (.signed 2, rest)
      | 0xD2 => some (.signed 4, rest)
      | 0xD3 => some (.signed 8, rest)
      | 0xD4 => some (.extension 1, rest)
      | 0xD5 => some (.extension 2, rest)
      | 0xD6 => some (.extension 4, rest)
      | 0xD7 => some (.extension 8, rest)
      | 0xD8 => some (.extension 16, rest)
      | 0xD9 => sized 1 .text rest
      | 0xDA => sized 2 .text rest
      | 0xDB => sized 4 .text rest
      | 0xDC => sized 2 .array rest
      | 0xDD => sized 4 .array rest
      | 0xDE => sized 2 .map rest
      | 0xDF => sized 4 .map rest
      | _ => none

/-- Reads so many values with a reader for one. -/
def many (read : List UInt8 → Option (Document × List UInt8)) :
    Nat → List UInt8 → Option (List Document × List UInt8)
  | 0, bytes => some ([], bytes)
  | n + 1, bytes =>
    match read bytes with
    | none => none
    | some (d, rest) =>
      match many read n rest with
      | none => none
      | some (ds, rest) => some (d :: ds, rest)

/-- Reads so many pairs of values with a reader for one. -/
def manyPairs (read : List UInt8 → Option (Document × List UInt8)) :
    Nat → List UInt8 → Option (List (Document × Document) × List UInt8)
  | 0, bytes => some ([], bytes)
  | n + 1, bytes =>
    match read bytes with
    | none => none
    | some (key, rest) =>
      match read rest with
      | none => none
      | some (value, rest) =>
        match manyPairs read n rest with
        | none => none
        | some (pairs, rest) => some ((key, value) :: pairs, rest)

/-- Reads one value in which arrays, maps and extensions are nested at most `depth` deep, and gives
the bytes after it. -/
def readWithin : Nat → List UInt8 → Option (Document × List UInt8)
  | depth, bytes =>
    match body? bytes with
    | none => none
    | some (body, rest) =>
      match body with
      | .complete value => some (value, rest)
      | .unsigned width => (take? width rest).map fun (b, r) => (.unsigned (natOfBytes b), r)
      | .signed width => (take? width rest).map fun (b, r) => (.signed (intOfBytes b), r)
      | .float32 => (take? 4 rest).map fun (b, r) => (.float (floatOfBits32 (natOfBytes b)), r)
      | .float64 =>
        (take? 8 rest).map fun (b, r) => (.float (Float.ofBits (.ofNat (natOfBytes b))), r)
      | .text length => (take? length rest).map fun (b, r) => (textOfBytes b, r)
      | .bytes length => (take? length rest).map fun (b, r) => (.bytes b, r)
      | .extension length =>
        match depth, rest with
        | _ + 1, tag :: rest => (take? length rest).map fun (b, r) => (.extension tag b, r)
        | _, _ => none
      | .array length =>
        match depth with
        | 0 => none
        | depth + 1 =>
          (many (readWithin depth) length rest).map fun (items, r) => (.array items, r)
      | .map length =>
        match depth with
        | 0 => none
        | depth + 1 =>
          (manyPairs (readWithin depth) length rest).map fun (members, r) => (.map members, r)

/-- The value at the front of the bytes; what follows it does not count. -/
def read? (bytes : List UInt8) : Option Document :=
  (readWithin maxDepth bytes).map Prod.fst

end SignalGraph.MessagePack
