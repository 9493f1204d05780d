/-!
# Bytes of texts

Texts are kept in UTF-8. Bytes that are not those of a text are shown as well as they can be: each
part that begins like a character and breaks off, and each byte that begins no character, is shown as
one replacement character.
-/
namespace ServiceChains.Text

/-- The bytes of a text. -/
def bytes (s : String) : List UInt8 :=
  s.toUTF8.data.toList

theorem fromUTF8?_toUTF8 (s : String) : String.fromUTF8? s.toUTF8 = some s := by
  simp only [String.fromUTF8?, String.toUTF8_eq_toByteArray, dif_pos s.isValidUTF8]
  rfl

/-- Bytes that are read as a text are the bytes of this text. -/
theorem toUTF8_of_fromUTF8? {content : ByteArray} {s : String}
    (h : String.fromUTF8? content = some s) : s.toUTF8 = content := by
  unfold String.fromUTF8? at h
  split at h
  · cases h
    rfl
  · cases h

/-- The ranges of the bytes that follow the first byte of a character; nothing if no character begins
with it. -/
def followers? (first : UInt8) : Option (List (UInt8 × UInt8)) :=
  let any : UInt8 × UInt8 := (0x80, 0xBF)
  if first < 0x80 then some []
  else if first < 0xC2 then none
  else if first < 0xE0 then some [any]
  else if first == 0xE0 then some [(0xA0, 0xBF), any]
  else if first == 0xED then some [(0x80, 0x9F), any]
  else if first < 0xF0 then some [any, any]
  else if first == 0xF0 then some [(0x90, 0xBF), any, any]
  else if first < 0xF4 then some [any, any, any]
  else if first == 0xF4 then some [(0x80, 0x8F), any, any]
  else none

/-- How many bytes lie in the ranges, each in its own, before one does not. -/
def fitting : List (UInt8 × UInt8) → List UInt8 → Nat
  | (low, high) :: ranges, b :: bs =>
    if low ≤ b && b ≤ high then fitting ranges bs + 1 else 0
  | _, _ => 0

/-- The character with a first byte and the bytes that follow it. -/
def charOfBytes (first : UInt8) (more : List UInt8) : Char :=
  let start := if more.isEmpty then first.toNat else first.toNat % (64 >>> more.length)
  Char.ofNat (more.foldl (fun n b => 64 * n + b.toNat % 64) start)

/-- Stands for bytes that are no character. -/
def replacement : Char :=
  '\ufffd'

/-- The characters that are shown for bytes, after the first `skip` of them. -/
def shownFrom : Nat → List UInt8 → List Char
  | _, [] => []
  | skip + 1, _ :: rest => shownFrom skip rest
  | 0, first :: rest =>
    match followers? first with
    | none => replacement :: shownFrom 0 rest
    | some ranges =>
      let taken := fitting ranges rest
      let c := if taken == ranges.length then charOfBytes first (rest.take taken) else replacement
      c :: shownFrom taken rest

/-- The text that is shown for bytes. -/
def shown (bs : List UInt8) : String :=
  String.ofList (shownFrom 0 bs)

-- a stray byte, a character of two bytes, and one of three that breaks off
example : shown [0x61, 0xFF, 0xC3, 0xA9, 0xE2, 0x82, 0x62] = "a\ufffdé\ufffdb" := by decide

end ServiceChains.Text
