import SignalGraph.Decimal.Numeral
import SignalGraph.Json.Basic

/-!
# Reading JSON text

The reader is a machine with a stack that takes one character at a time: `Reader.step` is its only
rule, and `Json.read?` runs it over a whole text. It checks the grammar everywhere but keeps what
has no value (a number out of range, half of a surrogate pair, more than 127 nested arrays and
objects) as `Document.invalid`, since only those who look at such a part may object to it.
-/

namespace SignalGraph.Json

open Decimal

/-- Arrays and objects may be nested this deep. -/
def maxDepth : Nat := 127

/-- The four blanks of JSON text. -/
def isJsonBlank (c : Char) : Bool :=
  c == ' ' || c == '\n' || c == '\t' || c == '\r'

/-! ### Numbers -/

/-- Whether a character can be part of a number. -/
def isNumberChar (c : Char) : Bool :=
  isDigit c || c == '-' || c == '+' || c == '.' || c == 'e' || c == 'E'

/-- The exponent of a number: nothing, or a mark, an optional sign and digits. -/
def isExponent : List Char → Bool
  | [] => true
  | c :: cs => (c == 'e' || c == 'E') && (intOfChars? cs).isSome

/-- What may follow the whole part of a number: a fraction and an exponent. -/
def isFractionAndExponent : List Char → Bool
  | '.' :: cs => !(cs.takeWhile isDigit).isEmpty && isExponent (cs.dropWhile isDigit)
  | cs => isExponent cs

/-- Whether a number without its sign is well formed: a zero counts as whole part only alone. -/
def isUnsignedNumber : List Char → Bool
  | '0' :: cs => isFractionAndExponent cs
  | c :: cs => isDigit c && isFractionAndExponent (cs.dropWhile isDigit)
  | [] => false

/-- Whether a list of characters is a JSON number. -/
def isNumber : List Char → Bool
  | '-' :: cs => isUnsignedNumber cs
  | cs => isUnsignedNumber cs

/-- The whole number that an optional minus sign and digits write, if it fits into 64 bits. A
negative zero is not whole. -/
def wholeOfChars? (cs : List Char) : Option Document :=
  match splitSign cs with
  | (negative, digits) =>
    match natOfChars? digits with
    | none => none
    | some n =>
      if negative then if 0 < n && n ≤ Nat.pow 2 63 then some (.signed (-(n : Int))) else none
      else if n < Nat.pow 2 64 then some (.unsigned n) else none

/-- The document of a number; `none` if it is not well formed. -/
def number? (cs : List Char) : Option Document :=
  if !isNumber cs then none
  else
    match wholeOfChars? cs with
    | some d => some d
    | none =>
      match Numeral.ofChars? cs with
      | none => none
      | some n => let x := n.toFloat; some (if x.isFinite then .float x else .invalid)

/-! ### Strings -/

/-- The value of a hexadecimal digit. -/
def hexValue? (c : Char) : Option Nat :=
  if isDigit c then some (c.toNat - '0'.toNat)
  else if 'a' ≤ c && c ≤ 'f' then some (c.toNat - 'a'.toNat + 10)
  else if 'A' ≤ c && c ≤ 'F' then some (c.toNat - 'A'.toNat + 10)
  else none

/-- What an escape with one letter stands for. -/
def escaped? : Char → Option Char
  | '"' => some '"'
  | '\\' => some '\\'
  | '/' => some '/'
  | 'b' => some '\x08'
  | 'f' => some '\x0c'
  | 'n' => some '\n'
  | 'r' => some '\r'
  | 't' => some '\t'
  | _ => none

/-- Where the reader stands inside a string. -/
inductive Escape where
  | none
  /-- After a backslash. -/
  | backslash
  /-- Inside `\uXXXX`: so many digits are missing, and this is the value of those read. -/
  | hex (missing : Nat) (value : Nat)
  deriving DecidableEq, Repr

/-- A string that is being read. -/
structure OpenString where
  /-- Its characters so far, the last one first. -/
  reversed : List Char
  escape : Escape
  /-- The first half of a surrogate pair, while the second one is missing. -/
  high : Option Nat
  /-- Whether no half of a pair has been left alone. -/
  valid : Bool

namespace OpenString

/-- A string just after its opening quote. -/
def start : OpenString := ⟨[], .none, none, true⟩

/-- Adds a character. -/
def push (p : OpenString) (c : Char) : OpenString :=
  { reversed := c :: p.reversed, escape := .none, high := none, valid := p.valid && p.high.isNone }

/-- Adds the UTF-16 unit of an escape. -/
def pushUnit (p : OpenString) (n : Nat) : OpenString :=
  if 0xD800 ≤ n && n ≤ 0xDBFF then
    { p with escape := .none, high := some n, valid := p.valid && p.high.isNone }
  else if 0xDC00 ≤ n && n ≤ 0xDFFF then
    match p.high with
    | some h =>
      { p with
        reversed := Char.ofNat (0x10000 + (h - 0xD800) * 0x400 + (n - 0xDC00)) :: p.reversed
        escape := .none
        high := none }
    | none => { p with escape := .none, valid := false }
  else p.push (Char.ofNat n)

/-- Takes a character other than the closing quote. -/
def step (p : OpenString) (c : Char) : Option OpenString :=
  match p.escape with
  | .none =>
    if c = '\\' then some { p with escape := .backslash }
    else if c.toNat < 0x20 then none
    else some (p.push c)
  | .backslash =>
    if c = 'u' then some { p with escape := .hex 4 0 } else (escaped? c).map p.push
  | .hex missing value =>
    (hexValue? c).map fun d =>
      let n := 16 * value + d
      if missing ≤ 1 then p.pushUnit n else { p with escape := .hex (missing - 1) n }

/-- The document of a string at its closing quote. -/
def finish (p : OpenString) : Document :=
  if p.valid && p.high.isNone then .text (String.ofList p.reversed.reverse) else .invalid

end OpenString

/-! ### The machine -/

/-- An array or object that is being read; what it holds so far has the last entry first. -/
inductive Frame where
  | array (items : List Document)
  /-- An object that waits for a name. -/
  | object (members : List (Document × Document))
  /-- An object that waits for the value of the last name. -/
  | member (members : List (Document × Document)) (name : Document)

/-- What the reader expects. -/
inductive Mode where
  | value
  /-- The first item of an array, or its end. -/
  | firstItem
  /-- The first name of an object, or its end. -/
  | firstName
  | name
  /-- The colon after a name. -/
  | colon (name : Document)
  /-- A comma or the end of an array or object. -/
  | separator
  /-- The rest of one of the words `null`, `true` and `false`. -/
  | word (rest : List Char) (value : Document)
  /-- More of a number, whose last character comes first. -/
  | number (reversed : List Char)
  | string (text : OpenString)
  | nameString (text : OpenString)
  /-- Only blanks. -/
  | done (value : Document)

/-- The state of the reader. -/
structure Reader where
  mode : Mode
  stack : List Frame

namespace Reader

/-- The reader before the first character. -/
def start : Reader := ⟨.value, []⟩

/-- Puts a complete value into the array or object it belongs to. -/
def deliver (v : Document) : List Frame → Option Reader
  | [] => some ⟨.done v, []⟩
  | .array items :: stack => some ⟨.separator, .array (v :: items) :: stack⟩
  | .member members name :: stack => some ⟨.separator, .object ((name, v) :: members) :: stack⟩
  | .object _ :: _ => none

/-- Ends an array or object, which has no value if it is nested too deeply. -/
def close (v : Document) (stack : List Frame) : Option Reader :=
  deliver (if maxDepth ≤ stack.length then .invalid else v) stack

/-- Takes the first character of a value. -/
def beginValue (c : Char) (stack : List Frame) : Option Reader :=
  match c with
  | 'n' => some ⟨.word ['u', 'l', 'l'] .null, stack⟩
  | 't' => some ⟨.word ['r', 'u', 'e'] (.bool true), stack⟩
  | 'f' => some ⟨.word ['a', 'l', 's', 'e'] (.bool false), stack⟩
  | '"' => some ⟨.string .start, stack⟩
  | '[' => some ⟨.firstItem, .array [] :: stack⟩
  | '{' => some ⟨.firstName, .object [] :: stack⟩
  | _ => if c == '-' || isDigit c then some ⟨.number [c], stack⟩ else none

/-- Takes a character after a complete value. -/
def afterValue (c : Char) : Reader → Option Reader
  | r@⟨.done _, []⟩ => if isJsonBlank c then some r else none
  | r@⟨.separator, .array items :: stack⟩ =>
    if isJsonBlank c then some r
    else if c = ',' then some ⟨.value, .array items :: stack⟩
    else if c = ']' then close (.array items.reverse) stack
    else none
  | r@⟨.separator, .object members :: stack⟩ =>
    if isJsonBlank c then some r
    else if c = ',' then some ⟨.name, .object members :: stack⟩
    else if c = '}' then close (.map members.reverse) stack
    else none
  | _ => none

/-- Takes one character. -/
def step (r : Reader) (c : Char) : Option Reader :=
  match r.mode with
  | .value => if isJsonBlank c then some r else beginValue c r.stack
  | .firstItem =>
    if isJsonBlank c then some r
    else if c = ']' then close (.array []) r.stack.tail
    else beginValue c r.stack
  | .firstName =>
    if isJsonBlank c then some r
    else if c = '}' then close (.map []) r.stack.tail
    else if c = '"' then some ⟨.nameString .start, r.stack⟩
    else none
  | .name =>
    if isJsonBlank c then some r
    else if c = '"' then some ⟨.nameString .start, r.stack⟩
    else none
  | .nameString p =>
    if c = '"' ∧ p.escape = .none then some ⟨.colon p.finish, r.stack⟩
    else (p.step c).map fun p => ⟨.nameString p, r.stack⟩
  | .colon name =>
    if isJsonBlank c then some r
    else
      match c, r.stack with
      | ':', .object members :: stack => some ⟨.value, .member members name :: stack⟩
      | _, _ => none
  | .word rest v =>
    match rest with
    | [] => none
    | [d] => if c = d then deliver v r.stack else none
    | d :: rest => if c = d then some ⟨.word rest v, r.stack⟩ else none
  | .string p =>
    if c = '"' ∧ p.escape = .none then deliver p.finish r.stack
    else (p.step c).map fun p => ⟨.string p, r.stack⟩
  | .number reversed =>
    if isNumberChar c then some ⟨.number (c :: reversed), r.stack⟩
    else
      match number? reversed.reverse with
      | none => none
      | some v => (deliver v r.stack).bind (afterValue c)
  | .separator | .done _ => afterValue c r

/-- The document read when the text ends. -/
def finish (r : Reader) : Option Document :=
  match r with
  | ⟨.done v, _⟩ => some v
  | ⟨.number reversed, []⟩ => number? reversed.reverse
  | _ => none

end Reader

/-- The document that a list of characters writes in JSON, if it is one. -/
def readChars? (cs : List Char) : Option Document :=
  (cs.foldlM Reader.step Reader.start).bind Reader.finish

/-- The document that a text writes in JSON, if it is one. -/
def read? (s : String) : Option Document :=
  readChars? s.toList

/-- The JSON value that a text writes. -/
def parse? (s : String) : Option Json :=
  (read? s).bind ofDocument?

end SignalGraph.Json
