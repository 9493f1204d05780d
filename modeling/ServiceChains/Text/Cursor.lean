/-!
# Reading at a place in a text

A cursor stands between two characters of a text. It knows the character before it, how many bytes
of UTF-8 lie before it, and what is left of the text. A reader looks at the text from a cursor
onwards and either refuses or answers a value and the cursor behind what it took.

`scan` lists the places of a text at which a reader succeeds, from left to right; a place inside an
earlier find is passed over.
-/
namespace ServiceChains.Text

/-- The number of bytes of a text in UTF-8. -/
def byteSize (cs : List Char) : Nat :=
  cs.foldl (fun n c => n + c.utf8Size) 0

/-- A place in a text. -/
structure Cursor where
  /-- The character just before, if there is one. -/
  before : Option Char
  /-- The number of bytes before. -/
  offset : Nat
  /-- What is left of the text. -/
  rest : List Char

/-- What a reader answers: a value and the place behind what it took. -/
abbrev Reader (α : Type) := Cursor → Option (α × Cursor)

namespace Cursor

/-- The place behind the longest run of characters of class `p`. -/
def skipWhile (p : Char → Bool) (c : Cursor) : Cursor :=
  let run := c.rest.takeWhile p
  ⟨run.getLast? <|> c.before, c.offset + byteSize run, c.rest.dropWhile p⟩

/-- The longest run of characters of class `p`, possibly empty. -/
def run (p : Char → Bool) (c : Cursor) : List Char × Cursor :=
  (c.rest.takeWhile p, c.skipWhile p)

/-- The longest run of characters of class `p`, at least one. -/
def run1 (p : Char → Bool) : Reader (List Char) := fun c =>
  match c.run p with
  | ([], _) => none
  | found => some found

/-- Passes over one given character. -/
def char (x : Char) (c : Cursor) : Option Cursor :=
  match c.rest with
  | y :: rest => if y = x then some ⟨some y, c.offset + y.utf8Size, rest⟩ else none
  | [] => none

/-- Passes over a given text. -/
def text : List Char → Cursor → Option Cursor
  | [], c => some c
  | x :: xs, c => (c.char x).bind (text xs)

/-- Passes over one of several given texts, the first that fits, and answers what belongs to it. -/
def oneOf {α : Type} (choices : List (List Char × α)) : Reader α := fun c =>
  choices.findSome? fun (word, value) => (c.text word).map (value, ·)

/-- Does a character of class `p` stand next? -/
def sees (p : Char → Bool) (c : Cursor) : Bool :=
  match c.rest with
  | x :: _ => p x
  | [] => false

/-- Does a character of class `p` stand just before? -/
def follows (p : Char → Bool) (c : Cursor) : Bool :=
  match c.before with
  | some x => p x
  | none => false

/-- A text of any length without the character `close`, and `close` behind it. -/
def upTo (close : Char) : Reader (List Char) := fun c =>
  let (inside, after) := c.run (· != close)
  (after.char close).map (inside, ·)

/-- A nonempty text without the character `close`, and `close` behind it. -/
def upTo1 (close : Char) : Reader (List Char) := fun c => do
  let (inside, after) ← c.run1 (· != close)
  let after ← after.char close
  return (inside, after)

end Cursor

/-- Something found in a text, between two byte offsets. -/
structure Found (α : Type) where
  value : α
  start : Nat
  stop : Nat

/-- Continues a scan: no find may begin before the offset `resume`, and `found` holds the earlier
finds, last first. -/
def scanFrom {α : Type} (read : Reader α) (resume : Nat) (found : List (Found α))
    (before : Option Char) (offset : Nat) : List Char → List (Found α)
  | [] => found.reverse
  | c :: cs =>
    if offset < resume then scanFrom read resume found (some c) (offset + c.utf8Size) cs
    else
      match read ⟨before, offset, c :: cs⟩ with
      | some (value, after) =>
        scanFrom read after.offset (⟨value, offset, after.offset⟩ :: found) (some c)
          (offset + c.utf8Size) cs
      | none => scanFrom read resume found (some c) (offset + c.utf8Size) cs

/-- The finds of a reader in a text, from left to right and without overlap. -/
def scan {α : Type} (read : Reader α) (cs : List Char) : List (Found α) :=
  scanFrom read 0 [] none 0 cs

/-- The leftmost find of a reader in a text. -/
def first? {α : Type} (read : Reader α) (cs : List Char) : Option α :=
  (scan read cs).head?.map Found.value

/-- The part of a text between two byte offsets, if both fall between characters. -/
def slice? (start stop : Nat) (cs : List Char) : Option (List Char) :=
  go start (stop - start) [] cs
where
  /-- Drops `skip` bytes, then keeps `keep` bytes. -/
  go (skip keep : Nat) (kept : List Char) : List Char → Option (List Char)
    | [] => if skip = 0 ∧ keep = 0 then some kept.reverse else none
    | c :: cs =>
      if skip = 0 ∧ keep = 0 then some kept.reverse
      else if skip = 0 then
        if c.utf8Size ≤ keep then go 0 (keep - c.utf8Size) (c :: kept) cs else none
      else if c.utf8Size ≤ skip then go (skip - c.utf8Size) keep kept cs
      else none

/-- The part of a text before a byte offset: the characters that end there or earlier. -/
def takeBytes (limit : Nat) (cs : List Char) : List Char :=
  go limit [] cs
where
  /-- Keeps characters while they fit into what is left of the limit. -/
  go (left : Nat) (kept : List Char) : List Char → List Char
    | [] => kept.reverse
    | c :: cs => if c.utf8Size ≤ left then go (left - c.utf8Size) (c :: kept) cs else kept.reverse

end ServiceChains.Text
