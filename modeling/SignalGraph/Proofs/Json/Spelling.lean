import SignalGraph.Proofs.Document
import SignalGraph.Proofs.Json.Literals

/-!
# The texts of a document

`Json.Spelled` relates a document and the JSON texts that write it: blanks may stand between any two
tokens, and each number and string may be spelled in every way. The reader gets the document back
from each of its texts (`Json.Spelled.readChars?`), and every document without floating-point
numbers that is not nested too deeply has one (`Json.exists_spelled`).

The reader takes one character at a time, and it learns the end of a number from what follows. So
the induction over the text says how the reader stands after the text of a value (`Json.HasRead`):
either it has delivered the value to the array or object around it, or it still holds a number.
-/

namespace SignalGraph.Json

open Decimal

/-! ### The texts -/

/-- Whether all characters are blanks. -/
def Blanks (cs : List Char) : Prop :=
  ∀ c ∈ cs, isJsonBlank c = true

/-- Whether characters write the name of a member, with blanks around it. -/
inductive SpelledName (s : String) : List Char → Prop
  | intro {blanks cs blanks' : List Char} (before : Blanks blanks)
      (chars : SpelledChars s.toList cs) (after : Blanks blanks') :
      SpelledName s (blanks ++ '"' :: (cs ++ '"' :: blanks'))

mutual

/-- Whether characters write a document, with blanks around it, where arrays and objects may be
nested so many levels deep. Deeper ones have no value. -/
inductive Spelled : Nat → Document → List Char → Prop
  | null {depth : Nat} : Spelled depth .null ['n', 'u', 'l', 'l']
  | true {depth : Nat} : Spelled depth (.bool true) ['t', 'r', 'u', 'e']
  | false {depth : Nat} : Spelled depth (.bool false) ['f', 'a', 'l', 's', 'e']
  | unsigned {depth n : Nat} (range : n < 2 ^ 64) :
      Spelled depth (.unsigned n) (Nat.toDigits 10 n)
  | signed {depth n : Nat} (positive : 0 < n) (range : n ≤ 2 ^ 63) :
      Spelled depth (.signed (-n)) ('-' :: Nat.toDigits 10 n)
  /-- Any other number has the value that the reader gives it. -/
  | number {depth : Nat} {d : Document} {cs : List Char} (value : number? cs = some d) :
      Spelled depth d cs
  | text {depth : Nat} {s : String} {cs : List Char} (chars : SpelledChars s.toList cs) :
      Spelled depth (.text s) ('"' :: (cs ++ ['"']))
  /-- Any other string, with half of a surrogate pair alone, has the value that the reader gives
  it. -/
  | string {depth : Nat} {cs : List Char} {p : OpenString}
      (value : cs.foldlM OpenString.next? .start = some p) (complete : p.escape = .none) :
      Spelled depth p.finish ('"' :: (cs ++ ['"']))
  | emptyArray {depth : Nat} {blanks : List Char} (h : Blanks blanks) :
      Spelled depth (if depth = 0 then .invalid else .array []) ('[' :: (blanks ++ [']']))
  | array {depth : Nat} {ds : List Document} {cs : List Char}
      (items : SpelledItems (depth - 1) ds cs) :
      Spelled depth (if depth = 0 then .invalid else .array ds) ('[' :: cs)
  | emptyObject {depth : Nat} {blanks : List Char} (h : Blanks blanks) :
      Spelled depth (if depth = 0 then .invalid else .map []) ('{' :: (blanks ++ ['}']))
  | object {depth : Nat} {ms : List (Document × Document)} {cs : List Char}
      (members : SpelledMembers (depth - 1) ms cs) :
      Spelled depth (if depth = 0 then .invalid else .map ms) ('{' :: cs)
  | before {depth : Nat} {d : Document} {c : Char} {cs : List Char} (blank : isJsonBlank c = true)
      (h : Spelled depth d cs) : Spelled depth d (c :: cs)
  | after {depth : Nat} {d : Document} {c : Char} {cs : List Char} (blank : isJsonBlank c = true)
      (h : Spelled depth d cs) : Spelled depth d (cs ++ [c])

/-- Whether characters write the items of an array, at least one, and its closing bracket. -/
inductive SpelledItems : Nat → List Document → List Char → Prop
  | last {depth : Nat} {d : Document} {cs : List Char} (item : Spelled depth d cs) :
      SpelledItems depth [d] (cs ++ [']'])
  | more {depth : Nat} {d : Document} {ds : List Document} {cs cs' : List Char}
      (item : Spelled depth d cs) (items : SpelledItems depth ds cs') :
      SpelledItems depth (d :: ds) (cs ++ ',' :: cs')

/-- Whether characters write the members of an object, at least one, and its closing brace. -/
inductive SpelledMembers : Nat → List (Document × Document) → List Char → Prop
  | last {depth : Nat} {s : String} {d : Document} {name cs : List Char}
      (key : SpelledName s name) (value : Spelled depth d cs) :
      SpelledMembers depth [(.text s, d)] (name ++ ':' :: (cs ++ ['}']))
  | more {depth : Nat} {s : String} {d : Document} {ms : List (Document × Document)}
      {name cs cs' : List Char} (key : SpelledName s name) (value : Spelled depth d cs)
      (members : SpelledMembers depth ms cs') :
      SpelledMembers depth ((.text s, d) :: ms) (name ++ ':' :: (cs ++ ',' :: cs'))

end

/-! ### The reader over blanks, names and numbers -/

/-- Where the reader only skips blanks. -/
theorem foldlM_step_blanks {r : Reader} (h : ∀ c, isJsonBlank c = true → r.step c = some r)
    {cs : List Char} (hcs : Blanks cs) : cs.foldlM Reader.step r = some r := by
  induction cs with
  | nil => rfl
  | cons c cs ih =>
    obtain ⟨hc, hcs⟩ := List.forall_mem_cons.1 hcs
    rw [List.foldlM_cons, h c hc, Option.bind_eq_bind, Option.bind_some, ih hcs]

/-- Inside a string the reader goes on as far as the string does, and so inside the name of a
member. -/
theorem foldlM_step_string {p p' : OpenString} {cs : List Char} {stack : List Frame}
    (h : cs.foldlM OpenString.next? p = some p') :
    cs.foldlM Reader.step ⟨.string p, stack⟩ = some ⟨.string p', stack⟩ ∧
      cs.foldlM Reader.step ⟨.nameString p, stack⟩ = some ⟨.nameString p', stack⟩ := by
  induction cs generalizing p with
  | nil => 
    cases h
    exact ⟨rfl, rfl⟩
  | cons c cs ih =>
    rw [List.foldlM_cons, Option.bind_eq_bind, Option.bind_eq_some_iff] at h
    obtain ⟨q, hq, h⟩ := h
    unfold OpenString.next? at hq
    split at hq
    · cases hq
    · next hc =>
      obtain ⟨hstring, hname⟩ := ih h
      simp [List.foldlM_cons, Reader.step, hc, hq, hstring, hname]

/-- Inside a number the reader collects its characters. -/
theorem foldlM_step_number {cs : List Char} (h : ∀ c ∈ cs, isNumberChar c = true)
    (reversed : List Char) (stack : List Frame) :
    cs.foldlM Reader.step ⟨.number reversed, stack⟩ =
      some ⟨.number (cs.reverse ++ reversed), stack⟩ := by
  induction cs generalizing reversed with
  | nil => rfl
  | cons c cs ih =>
    obtain ⟨hc, hcs⟩ := List.forall_mem_cons.1 h
    simp [List.foldlM_cons, Reader.step, hc, ih hcs]

/-! ### The reader after a value -/

/-- Whether a value may be put into the innermost open array or object. -/
def Takes (stack : List Frame) : Prop :=
  ∀ members rest, stack ≠ .object members :: rest

/-- How the reader stands after the text of a value. -/
def HasRead (d : Document) (stack : List Frame) (r : Reader) : Prop :=
  Reader.deliver d stack = some r ∨
    ∃ reversed, r = ⟨.number reversed, stack⟩ ∧ number? reversed.reverse = some d

variable {d : Document} {stack : List Frame} {r : Reader} {m : Mode} {c : Char}

/-- A value is taken wherever one may stand. -/
theorem exists_deliver (hstack : Takes stack) (d : Document) :
    ∃ r, Reader.deliver d stack = some r := by
  match stack with
  | [] => exact ⟨_, rfl⟩
  | .array items :: rest => exact ⟨_, rfl⟩
  | .member members name :: rest => exact ⟨_, rfl⟩
  | .object members :: rest => exact (hstack members rest rfl).elim

/-- After a delivered value, only its surroundings decide what may follow. -/
theorem step_of_deliver (h : Reader.deliver d stack = some r) (c : Char) :
    r.step c = Reader.afterValue c r := by
  match stack, h with
  | [], h => cases h; rfl
  | .array items :: rest, h => cases h; rfl
  | .member members name :: rest, h => cases h; rfl

/-- Blanks may follow a value. -/
theorem afterValue_blank_of_deliver (h : Reader.deliver d stack = some r)
    (hc : isJsonBlank c = true) : Reader.afterValue c r = some r := by
  match stack, h with
  | [], h => cases h; simp [Reader.afterValue, hc]
  | .array items :: rest, h => cases h; simp [Reader.afterValue, hc]
  | .member members name :: rest, h => cases h; simp [Reader.afterValue, hc]

/-- A character that is no part of a number ends the value. -/
theorem HasRead.step (h : HasRead d stack r) (hc : isNumberChar c = false) :
    r.step c = (Reader.deliver d stack).bind (Reader.afterValue c) := by
  rcases h with hr | ⟨reversed, rfl, hd⟩
  · rw [step_of_deliver hr, hr, Option.bind_some]
  · simp [Reader.step, hc, hd]

theorem isNumberChar_of_isJsonBlank (h : isJsonBlank c = true) : isNumberChar c = false := by
  simp only [isJsonBlank, Bool.or_eq_true, beq_iff_eq] at h
  obtain ((rfl | rfl) | rfl) | rfl := h <;> rfl

/-- The reader has still read the value after a blank. -/
theorem HasRead.step_blank (h : HasRead d stack r) (hstack : Takes stack)
    (hc : isJsonBlank c = true) : ∃ r', r.step c = some r' ∧ HasRead d stack r' := by
  obtain ⟨r', hr'⟩ := exists_deliver hstack d
  refine ⟨r', ?_, .inl hr'⟩
  rw [h.step (isNumberChar_of_isJsonBlank hc), hr', Option.bind_some,
    afterValue_blank_of_deliver hr' hc]

/-- At the end of the text, the value is the document. -/
theorem HasRead.finish (h : HasRead d [] r) : r.finish = some d := by
  rcases h with hr | ⟨reversed, rfl, hd⟩
  · cases hr
    rfl
  · exact hd

/-! ### The reader before a value -/

/-- Where a value begins, after a comma or as the first item. -/
def Opens (m : Mode) : Prop :=
  m = .value ∨ m = .firstItem

/-- Blanks may come before a value. -/
theorem Opens.step_blank (hm : Opens m) (hc : isJsonBlank c = true) :
    Reader.step ⟨m, stack⟩ c = some ⟨m, stack⟩ := by
  rcases hm with rfl | rfl <;> simp [Reader.step, hc]

/-- Any other character begins the value, except for the bracket that closes an empty array. -/
theorem Opens.step (hm : Opens m) (hblank : isJsonBlank c = false) (hc : c ≠ ']') :
    Reader.step ⟨m, stack⟩ c = Reader.beginValue c stack := by
  rcases hm with rfl | rfl <;> simp [Reader.step, hblank, hc]

/-- The rest of a word is read letter by letter. -/
theorem foldlM_step_word (d : Document) (stack : List Frame) {rest : List Char} (h : rest ≠ []) :
    rest.foldlM Reader.step ⟨.word rest d, stack⟩ = Reader.deliver d stack := by
  induction rest with
  | nil => exact (h rfl).elim
  | cons c rest ih =>
    cases rest with
    | nil => simp [List.foldlM_cons, Reader.step]
    | cons c' rest =>
      rw [List.foldlM_cons, ← ih (List.cons_ne_nil c' rest)]
      simp [Reader.step]

/-- A word is read to its last letter. -/
theorem Opens.foldlM_word (hm : Opens m) (hstack : Takes stack) {rest : List Char}
    (hrest : rest ≠ []) (hblank : isJsonBlank c = false) (hc : c ≠ ']')
    (hbegin : Reader.beginValue c stack = some ⟨.word rest d, stack⟩) :
    ∃ r, (c :: rest).foldlM Reader.step ⟨m, stack⟩ = some r ∧ HasRead d stack r := by
  obtain ⟨r, hr⟩ := exists_deliver hstack d
  refine ⟨r, ?_, .inl hr⟩
  rw [List.foldlM_cons, hm.step hblank hc, hbegin, Option.bind_eq_bind, Option.bind_some,
    foldlM_step_word d stack hrest, hr]

/-- A minus or a digit begins a number. -/
theorem beginValue_number (hc : c = '-' ∨ isDigit c = true) :
    Reader.beginValue c stack = some ⟨.number [c], stack⟩ := by
  unfold Reader.beginValue
  split
  all_goals try exact absurd hc (by decide)
  exact if_pos (by simpa using hc)

/-- A number is read up to its last character, but it is delivered by what follows only. -/
theorem Opens.foldlM_number (hm : Opens m) {cs : List Char} (h : number? cs = some d) :
    ∃ r, cs.foldlM Reader.step ⟨m, stack⟩ = some r ∧ HasRead d stack r := by
  obtain ⟨c, rest, rfl, hc, hrest⟩ := exists_eq_cons_of_number? h
  have hchar : isNumberChar c = true := by
    rcases hc with rfl | hc
    · rfl
    · exact isNumberChar_of_isDigit hc
  have hblank : isJsonBlank c = false :=
    Bool.eq_false_iff.2 fun hblank => by simp [isNumberChar_of_isJsonBlank hblank] at hchar
  have hbracket : c ≠ ']' := by
    rintro rfl
    exact absurd hchar (by decide)
  refine ⟨⟨.number (rest.reverse ++ [c]), stack⟩, ?_, .inr ⟨_, rfl, by simpa using h⟩⟩
  rw [List.foldlM_cons, hm.step hblank hbracket, beginValue_number hc, Option.bind_eq_bind,
    Option.bind_some, foldlM_step_number hrest]

/-- A string is delivered with its closing quote. -/
theorem Opens.foldlM_string (hm : Opens m) (hstack : Takes stack) {cs : List Char} {p : OpenString}
    (h : cs.foldlM OpenString.next? .start = some p) (hp : p.escape = .none) :
    ∃ r, ('"' :: (cs ++ ['"'])).foldlM Reader.step ⟨m, stack⟩ = some r ∧
      HasRead p.finish stack r := by
  obtain ⟨r, hr⟩ := exists_deliver hstack p.finish
  have hquote : Reader.step ⟨.string p, stack⟩ '"' = some r := by
    simp [Reader.step, hp, hr]
  refine ⟨r, ?_, .inl hr⟩
  rw [List.foldlM_cons, hm.step rfl (by decide), Option.bind_eq_bind]
  show (cs ++ ['"']).foldlM Reader.step ⟨.string .start, stack⟩ = some r
  rw [List.foldlM_append, (foldlM_step_string h).1, Option.bind_eq_bind, Option.bind_some,
    List.foldlM_cons, hquote]
  rfl

/-- The text of a valid string is its document. -/
theorem finish_of_valid (s : String) :
    OpenString.finish ⟨s.toList.reverse, .none, none, true⟩ = .text s := by
  simp [OpenString.finish]

theorem foldlM_next?_text {s : String} {cs : List Char} (h : SpelledChars s.toList cs) :
    cs.foldlM OpenString.next? .start = some ⟨s.toList.reverse, .none, none, true⟩ := by
  rw [OpenString.start, foldlM_next?_chars h, List.append_nil]

/-- After the name of a member and its colon comes a value. -/
theorem foldlM_step_name {s : String} {name : List Char} (h : SpelledName s name)
    {members : List (Document × Document)} (hm : m = .name ∨ m = .firstName) (rest : List Char) :
    (name ++ ':' :: rest).foldlM Reader.step ⟨m, .object members :: stack⟩ =
      rest.foldlM Reader.step ⟨.value, .member members (.text s) :: stack⟩ := by
  obtain ⟨before, chars, after⟩ := h
  rename_i blanks cs blanks'
  -- the parts of the text in their order: blanks, the name in quotes, blanks, the colon
  have hbefore : blanks.foldlM Reader.step ⟨m, .object members :: stack⟩ =
      some ⟨m, .object members :: stack⟩ := by
    refine foldlM_step_blanks (fun c hc => ?_) before
    rcases hm with rfl | rfl <;> simp [Reader.step, hc]
  have hopen : Reader.step ⟨m, .object members :: stack⟩ '"' =
      some ⟨.nameString .start, .object members :: stack⟩ := by
    rcases hm with rfl | rfl <;> rfl
  have hclose : Reader.step ⟨.nameString ⟨s.toList.reverse, .none, none, true⟩,
      .object members :: stack⟩ '"' = some ⟨.colon (.text s), .object members :: stack⟩ := by
    simp [Reader.step, finish_of_valid]
  have hafter : blanks'.foldlM Reader.step ⟨.colon (.text s), .object members :: stack⟩ =
      some ⟨.colon (.text s), .object members :: stack⟩ :=
    foldlM_step_blanks (fun c hc => by simp [Reader.step, hc]) after
  have hcolon : Reader.step ⟨.colon (.text s), .object members :: stack⟩ ':' =
      some ⟨.value, .member members (.text s) :: stack⟩ := rfl
  simp only [List.append_assoc, List.cons_append, List.foldlM_append, List.foldlM_cons,
    Option.bind_eq_bind, Option.bind_some, hbefore, hopen,
    (foldlM_step_string (foldlM_next?_text chars)).2, hclose, hafter, hcolon]

/-- A character after the last item, or after the value of a member, decides what follows. -/
theorem HasRead.step_item {items : List Document} (h : HasRead d (.array items :: stack) r)
    (hc : isNumberChar c = false) :
    r.step c = Reader.afterValue c ⟨.separator, .array (d :: items) :: stack⟩ :=
  h.step hc

/-- After the value of a member, the member is added to its object. -/
theorem HasRead.step_member {members : List (Document × Document)} {name : Document}
    (h : HasRead d (.member members name :: stack) r) (hc : isNumberChar c = false) :
    r.step c = Reader.afterValue c ⟨.separator, .object ((name, d) :: members) :: stack⟩ :=
  h.step hc

/-- An array or object that is closed is read. -/
theorem exists_close {depth : Nat} (hdepth : depth = maxDepth - stack.length)
    (hstack : Takes stack) (d : Document) :
    ∃ r, Reader.close d stack = some r ∧ HasRead (if depth = 0 then .invalid else d) stack r := by
  have hiff : maxDepth ≤ stack.length ↔ depth = 0 := by omega
  obtain ⟨r, hr⟩ := exists_deliver hstack (if depth = 0 then .invalid else d)
  exact ⟨r, by simpa only [Reader.close, hiff] using hr, .inl hr⟩

/-! ### The reader over a text -/

mutual

/-- After the text of a value the reader has read the value. -/
theorem Spelled.hasRead {depth : Nat} {d : Document} {cs : List Char} (h : Spelled depth d cs) :
    ∀ (stack : List Frame) {m : Mode}, depth = maxDepth - stack.length → Takes stack → Opens m →
      ∃ r, cs.foldlM Reader.step ⟨m, stack⟩ = some r ∧ HasRead d stack r := by
  cases h with
  | null => exact fun _ _ _ hstack hm => hm.foldlM_word hstack (by decide) rfl (by decide) rfl
  | true => exact fun _ _ _ hstack hm => hm.foldlM_word hstack (by decide) rfl (by decide) rfl
  | false => exact fun _ _ _ hstack hm => hm.foldlM_word hstack (by decide) rfl (by decide) rfl
  | unsigned range => exact fun _ _ _ _ hm => hm.foldlM_number (number?_toDigits range)
  | signed positive range =>
    exact fun _ _ _ _ hm => hm.foldlM_number (number?_minus_toDigits positive range)
  | number value => exact fun _ _ _ _ hm => hm.foldlM_number value
  | text chars =>
    intro stack m _ hstack hm
    have hread := hm.foldlM_string hstack (foldlM_next?_text chars) rfl
    rwa [finish_of_valid] at hread
  | string value complete => exact fun _ _ _ hstack hm => hm.foldlM_string hstack value complete
  | emptyArray h =>
    intro stack m hdepth hstack hm
    obtain ⟨r, hr, hread⟩ := exists_close hdepth hstack (.array [])
    refine ⟨r, ?_, hread⟩
    -- the array that has been opened is closed behind the blanks
    have hblanks := foldlM_step_blanks (r := ⟨.firstItem, .array [] :: stack⟩)
      (fun c hc => Opens.step_blank (.inr rfl) hc) h
    rw [List.foldlM_cons, hm.step rfl (by decide), Option.bind_eq_bind]
    show List.foldlM Reader.step ⟨.firstItem, .array [] :: stack⟩ _ = some r
    rw [List.foldlM_append, hblanks, Option.bind_eq_bind, Option.bind_some]
    simpa [List.foldlM_cons, Reader.step, isJsonBlank] using hr
  | array items =>
    intro stack m hdepth hstack hm
    obtain ⟨r, hr, hread⟩ := exists_close hdepth hstack (.array _)
    refine ⟨r, ?_, hread⟩
    rw [List.foldlM_cons, hm.step rfl (by decide), ← hr]
    exact items.foldlM_step [] stack (by omega) (.inr rfl)
  | emptyObject h =>
    intro stack m hdepth hstack hm
    obtain ⟨r, hr, hread⟩ := exists_close hdepth hstack (.map [])
    refine ⟨r, ?_, hread⟩
    have hblanks := foldlM_step_blanks (r := ⟨.firstName, .object [] :: stack⟩)
      (fun c hc => by simp [Reader.step, hc]) h
    rw [List.foldlM_cons, hm.step rfl (by decide), Option.bind_eq_bind]
    show List.foldlM Reader.step ⟨.firstName, .object [] :: stack⟩ _ = some r
    rw [List.foldlM_append, hblanks, Option.bind_eq_bind, Option.bind_some]
    simpa [List.foldlM_cons, Reader.step, isJsonBlank] using hr
  | object members =>
    intro stack m hdepth hstack hm
    obtain ⟨r, hr, hread⟩ := exists_close hdepth hstack (.map _)
    refine ⟨r, ?_, hread⟩
    rw [List.foldlM_cons, hm.step rfl (by decide), ← hr]
    exact members.foldlM_step [] stack (by omega) (.inr rfl)
  | before blank h =>
    intro stack m hdepth hstack hm
    obtain ⟨r, hr, hread⟩ := h.hasRead stack hdepth hstack hm
    refine ⟨r, ?_, hread⟩
    rw [List.foldlM_cons, hm.step_blank blank]
    exact hr
  | after blank h =>
    intro stack m hdepth hstack hm
    obtain ⟨r, hr, hread⟩ := h.hasRead stack hdepth hstack hm
    -- the blank ends a number, and changes nothing after any other value
    obtain ⟨r', hr', hread'⟩ := hread.step_blank hstack blank
    refine ⟨r', ?_, hread'⟩
    rw [List.foldlM_append, hr, Option.bind_eq_bind, Option.bind_some, List.foldlM_cons, hr']
    rfl
termination_by cs.length
decreasing_by all_goals simp

/-- The items of an array are read in their order, and then the array is closed. -/
theorem SpelledItems.foldlM_step {depth : Nat} {ds : List Document} {cs : List Char}
    (h : SpelledItems depth ds cs) : ∀ (items : List Document) (stack : List Frame) {m : Mode},
    depth = maxDepth - (stack.length + 1) → Opens m →
      cs.foldlM Reader.step ⟨m, .array items :: stack⟩ =
        Reader.close (.array (items.reverse ++ ds)) stack := by
  cases h with
  | last item =>
    intro items stack m hdepth hm
    obtain ⟨r, hr, hread⟩ := item.hasRead (.array items :: stack) hdepth nofun hm
    rw [List.foldlM_append, hr, Option.bind_eq_bind, Option.bind_some, List.foldlM_cons,
      hread.step_item rfl]
    simp [Reader.afterValue, isJsonBlank]
  | @more _ d ds cs cs' item rest =>
    intro items stack m hdepth hm
    obtain ⟨r, hr, hread⟩ := item.hasRead (.array items :: stack) hdepth nofun hm
    have hrest := rest.foldlM_step (d :: items) stack hdepth (.inl rfl)
    rw [List.foldlM_append, hr, Option.bind_eq_bind, Option.bind_some, List.foldlM_cons,
      hread.step_item rfl]
    simpa [Reader.afterValue, isJsonBlank] using hrest
termination_by cs.length
decreasing_by all_goals (simp only [List.length_append, List.length_cons]; omega)

/-- The members of an object are read in their order, and then the object is closed. -/
theorem SpelledMembers.foldlM_step {depth : Nat} {ms : List (Document × Document)}
    {cs : List Char} (h : SpelledMembers depth ms cs) :
    ∀ (members : List (Document × Document)) (stack : List Frame) {m : Mode},
      depth = maxDepth - (stack.length + 1) → (m = .name ∨ m = .firstName) →
      cs.foldlM Reader.step ⟨m, .object members :: stack⟩ =
        Reader.close (.map (members.reverse ++ ms)) stack := by
  cases h with
  | @last _ s d name cs key value =>
    intro members stack m hdepth hm
    obtain ⟨r, hr, hread⟩ :=
      value.hasRead (.member members (.text s) :: stack) hdepth nofun (.inl rfl)
    rw [foldlM_step_name key hm, List.foldlM_append, hr, Option.bind_eq_bind, Option.bind_some,
      List.foldlM_cons, hread.step_member rfl]
    simp [Reader.afterValue, isJsonBlank]
  | @more _ s d ms name cs cs' key value rest =>
    intro members stack m hdepth hm
    obtain ⟨r, hr, hread⟩ :=
      value.hasRead (.member members (.text s) :: stack) hdepth nofun (.inl rfl)
    have hrest := rest.foldlM_step ((.text s, d) :: members) stack hdepth (.inl rfl)
    rw [foldlM_step_name key hm, List.foldlM_append, hr, Option.bind_eq_bind, Option.bind_some,
      List.foldlM_cons, hread.step_member rfl]
    simpa [Reader.afterValue, isJsonBlank] using hrest
termination_by cs.length
decreasing_by all_goals (simp only [List.length_append, List.length_cons]; omega)

end

/-- The reader gets the document back from each of its texts. -/
theorem Spelled.readChars? {d : Document} {cs : List Char} (h : Spelled maxDepth d cs) :
    readChars? cs = some d := by
  obtain ⟨r, hr, hread⟩ := h.hasRead [] rfl nofun (.inl rfl)
  rw [Json.readChars?, Reader.start, hr, Option.bind_some, hread.finish]

/-! ### Documents with a text -/

theorem spelledName_quote (s : String) : SpelledName s (quote s) := by
  have hblanks : Blanks [] := nofun
  exact .intro hblanks (spelledChars_flatMap_escapeChar s.toList) hblanks


mutual

/-- Whether a document has nothing but names that are texts, and no floating-point number, whose
text need not be exact. -/
def Textual : Document → Prop
  | .array items => ItemsTextual items
  | .map members => MembersTextual members
  | .float _ | .bytes _ | .extension _ _ | .invalid => False
  | .null | .bool _ | .unsigned _ | .signed _ | .text _ => True

/-- Whether all items are textual. -/
def ItemsTextual : List Document → Prop
  | [] => True
  | d :: ds => Textual d ∧ ItemsTextual ds

/-- Whether all names are texts and all values textual. -/
def MembersTextual : List (Document × Document) → Prop
  | [] => True
  | (name, d) :: rest => (∃ s, name = .text s) ∧ Textual d ∧ MembersTextual rest

end

mutual

/-- A textual document has a text, without blanks and with the printer's escapes. -/
theorem exists_spelled {d : Document} (h : Textual d) (hnumbers : d.NumbersFit) {depth : Nat}
    (hdepth : d.depth ≤ depth) : ∃ cs, Spelled depth d cs := by
  cases d with
  | null => exact ⟨_, .null⟩
  | bool b =>
    cases b with
    | true => exact ⟨_, .true⟩
    | false => exact ⟨_, .false⟩
  | unsigned n => exact ⟨_, .unsigned hnumbers⟩
  | signed i =>
    obtain ⟨hmin, hneg⟩ := hnumbers
    have hspelled : Spelled depth (.signed (-(i.natAbs : Int))) _ :=
      .signed (by omega) (by omega : i.natAbs ≤ 2 ^ 63)
    -- a negative number is written by its magnitude
    have hvalue : -(i.natAbs : Int) = i := by omega
    exact ⟨_, hvalue ▸ hspelled⟩
  | text s => exact ⟨_, .text (spelledChars_flatMap_escapeChar s.toList)⟩
  | array items =>
    have hpositive : depth ≠ 0 := Nat.ne_zero_of_lt hdepth
    have hspelled : ∃ cs, Spelled depth (if depth = 0 then .invalid else .array items) cs := by
      have hitems := exists_spelledItems h hnumbers (Nat.le_sub_one_of_lt hdepth)
      cases items with
      | nil => exact ⟨'[' :: ([] ++ [']']), .emptyArray nofun⟩
      | cons d ds =>
        obtain ⟨cs, hcs⟩ := hitems (List.cons_ne_nil d ds)
        exact ⟨_, .array hcs⟩
    rwa [if_neg hpositive] at hspelled
  | map members =>
    have hpositive : depth ≠ 0 := Nat.ne_zero_of_lt hdepth
    have hspelled : ∃ cs, Spelled depth (if depth = 0 then .invalid else .map members) cs := by
      have hmembers := exists_spelledMembers h hnumbers (Nat.le_sub_one_of_lt hdepth)
      cases members with
      | nil => exact ⟨'{' :: ([] ++ ['}']), .emptyObject nofun⟩
      | cons m ms =>
        obtain ⟨cs, hcs⟩ := hmembers (List.cons_ne_nil m ms)
        exact ⟨_, .object hcs⟩
    rwa [if_neg hpositive] at hspelled
  | float | bytes | extension | invalid => exact h.elim

/-- Items have a text if they have texts one by one. -/
theorem exists_spelledItems {ds : List Document} (h : ItemsTextual ds)
    (hnumbers : Document.ItemsFit ds) {depth : Nat} (hdepth : Document.depthOfItems ds ≤ depth)
    (hne : ds ≠ []) : ∃ cs, SpelledItems depth ds cs := by
  cases ds with
  | nil => exact (hne rfl).elim
  | cons d ds =>
    obtain ⟨hd, hds⟩ := Nat.max_le.1 hdepth
    obtain ⟨cs, hcs⟩ := exists_spelled h.1 hnumbers.1 hd
    have hrest := exists_spelledItems h.2 hnumbers.2 hds
    cases ds with
    | nil => exact ⟨_, .last hcs⟩
    | cons d' ds =>
      obtain ⟨cs', hcs'⟩ := hrest (List.cons_ne_nil d' ds)
      exact ⟨_, .more hcs hcs'⟩

theorem exists_spelledMembers {ms : List (Document × Document)} (h : MembersTextual ms)
    (hnumbers : Document.MembersFit ms) {depth : Nat} (hdepth : Document.depthOfMembers ms ≤ depth)
    (hne : ms ≠ []) : ∃ cs, SpelledMembers depth ms cs := by
  cases ms with
  | nil => exact (hne rfl).elim
  | cons m ms =>
    obtain ⟨name, d⟩ := m
    obtain ⟨⟨s, rfl⟩, hd, hms⟩ := h
    obtain ⟨hhead, htail⟩ := Nat.max_le.1 hdepth
    obtain ⟨cs, hcs⟩ := exists_spelled hd hnumbers.2.1 (Nat.max_le.1 hhead).2
    have hrest := exists_spelledMembers hms hnumbers.2.2 htail
    cases ms with
    | nil => exact ⟨_, .last (spelledName_quote s) hcs⟩
    | cons m' ms =>
      obtain ⟨cs', hcs'⟩ := hrest (List.cons_ne_nil m' ms)
      exact ⟨_, .more (spelledName_quote s) hcs hcs'⟩

end

end SignalGraph.Json
