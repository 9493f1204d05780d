import ServiceChains.Proofs.Text.ByteOrder

/-!
# Characters of one byte among the bytes of a text

A character of one byte is its byte, and all bytes of other characters are larger. So a byte that
spells such a character stands for it wherever it is found in a text, also if the text is searched
without regard to where its characters begin.
-/
namespace ServiceChains.Text

/-- The bytes of a list of characters. -/
def encode (cs : List Char) : List UInt8 :=
  cs.flatMap String.utf8EncodeChar

@[simp] theorem encode_nil : encode [] = [] := rfl

@[simp] theorem encode_cons (c : Char) (cs : List Char) :
    encode (c :: cs) = String.utf8EncodeChar c ++ encode cs := rfl

@[simp] theorem encode_append (cs ds : List Char) : encode (cs ++ ds) = encode cs ++ encode ds :=
  List.flatMap_append

theorem encode_flatMap {α : Type} (f : α → List Char) (items : List α) :
    encode (items.flatMap f) = items.flatMap fun item => encode (f item) :=
  List.flatMap_assoc

theorem bytes_eq_encode (s : String) : bytes s = encode s.toList :=
  bytes_eq_flatMap s

theorem length_le_encode (cs : List Char) : cs.length ≤ (encode cs).length := by
  induction cs with
  | nil => exact Nat.le_refl _
  | cons c cs ih =>
    have hpos := c.utf8Size_pos
    rw [encode_cons, List.length_append, String.length_utf8EncodeChar, List.length_cons]
    omega

theorem utf8ByteSize_eq_encode (s : String) : s.utf8ByteSize = (encode s.toList).length := by
  rw [← bytes_eq_encode, bytes]
  simp

/-- A text has no more characters than bytes. -/
theorem length_le_utf8ByteSize (s : String) : s.length ≤ s.utf8ByteSize := by
  rw [utf8ByteSize_eq_encode, ← String.length_toList]
  exact length_le_encode _

/-- The bytes of characters are read as these characters. -/
theorem fromUTF8?_encode (cs : List Char) :
    String.fromUTF8? (encode cs).toByteArray = some (String.ofList cs) := by
  have hbytes : (encode cs).toByteArray = (String.ofList cs).toUTF8 := by
    rw [String.toUTF8_eq_toByteArray, String.toByteArray_ofList]
    rfl
  rw [hbytes, fromUTF8?_toUTF8]

variable {c x : Char} {b : UInt8}

theorem toNat_le_of_utf8Size (h : c.utf8Size = 1) : c.val.toNat ≤ 127 := by
  rwa [Char.utf8Size_eq_one_iff, UInt32.le_iff_toNat_le] at h

theorem utf8EncodeChar_of_utf8Size (h : c.utf8Size = 1) :
    String.utf8EncodeChar c = [c.toUInt8] := by
  rw [String.utf8EncodeChar_eq_singleton h, Char.toUInt8_val]

theorem toNat_toUInt8 (h : c.utf8Size = 1) : c.toUInt8.toNat = c.val.toNat := by
  have hle := toNat_le_of_utf8Size h
  rw [← Char.toUInt8_val, UInt32.toNat_toUInt8]
  omega

theorem toUInt8_inj (hc : c.utf8Size = 1) (hx : x.utf8Size = 1) :
    c.toUInt8 = x.toUInt8 ↔ c = x := by
  constructor
  · intro h
    have hval := congrArg UInt8.toNat h
    rw [toNat_toUInt8 hc, toNat_toUInt8 hx] at hval
    exact Char.ext (UInt32.toNat_inj.mp hval)
  · rintro rfl
    rfl

/-- A byte that belongs to a character of several bytes. -/
def IsHigh (b : UInt8) : Prop :=
  128 ≤ b.toNat

theorem IsHigh.ne (h : IsHigh b) (hx : x.utf8Size = 1) : b ≠ x.toUInt8 := by
  rintro rfl
  have hle := toNat_le_of_utf8Size hx
  rw [IsHigh, toNat_toUInt8 hx] at h
  omega

theorem isHigh_of_mem (h : c.utf8Size ≠ 1) (hb : b ∈ String.utf8EncodeChar c) : IsHigh b := by
  have hlarge : ¬ c.val.toNat ≤ 127 := by
    rwa [ne_eq, Char.utf8Size_eq_one_iff, UInt32.le_iff_toNat_le] at h
  rw [String.utf8EncodeChar, if_neg hlarge] at hb
  unfold IsHigh
  split_ifs at hb <;>
    simp only [List.mem_cons, List.not_mem_nil, or_false] at hb <;>
    rcases hb with rfl | rfl | rfl | rfl <;>
    simp only [UInt8.toNat_ofNat'] <;>
    omega

/-- A character is a byte of its own, or all its bytes are high. -/
theorem utf8EncodeChar_cases (c : Char) :
    (c.utf8Size = 1 ∧ String.utf8EncodeChar c = [c.toUInt8]) ∨
      ∀ b ∈ String.utf8EncodeChar c, IsHigh b := by
  by_cases hc : c.utf8Size = 1
  · exact .inl ⟨hc, utf8EncodeChar_of_utf8Size hc⟩
  · exact .inr fun b hb => isHigh_of_mem hc hb

/-- The bytes of a character behind its first one are high. -/
theorem isHigh_of_mem_tail (hb : b ∈ (String.utf8EncodeChar c).tail) : IsHigh b := by
  rcases utf8EncodeChar_cases c with ⟨-, hbyte⟩ | hhigh
  · rw [hbyte] at hb
    cases hb
  · exact hhigh b (List.mem_of_mem_tail hb)

theorem mem_utf8EncodeChar_iff (hx : x.utf8Size = 1) :
    x.toUInt8 ∈ String.utf8EncodeChar c ↔ c = x := by
  rcases utf8EncodeChar_cases c with ⟨hc, hbyte⟩ | hhigh
  · rw [hbyte, List.mem_singleton, eq_comm, toUInt8_inj hc hx]
  · constructor
    · intro hmem
      exact absurd rfl ((hhigh _ hmem).ne hx)
    · rintro rfl
      rw [utf8EncodeChar_of_utf8Size hx]
      exact List.mem_singleton_self _

/-- The first byte of a text spells a character of one byte only if it is the first character. -/
theorem head?_encode_eq_some_iff (hx : x.utf8Size = 1) {cs : List Char} :
    (encode cs).head? = some x.toUInt8 ↔ cs.head? = some x := by
  cases cs with
  | nil => simp
  | cons c cs =>
    rw [encode_cons, List.head?_append_of_ne_nil _ String.utf8EncodeChar_ne_nil, List.head?_cons,
      Option.some_inj]
    constructor
    · intro h
      exact (mem_utf8EncodeChar_iff hx).mp (List.mem_of_mem_head? h)
    · rintro rfl
      rw [utf8EncodeChar_of_utf8Size hx]
      rfl

/-- The bytes up to one that spells a given character are those of the characters up to it. -/
theorem takeWhile_encode (hx : x.utf8Size = 1) (cs : List Char) :
    (encode cs).takeWhile (· != x.toUInt8) = encode (cs.takeWhile (· != x)) ∧
      (encode cs).dropWhile (· != x.toUInt8) = encode (cs.dropWhile (· != x)) := by
  induction cs with
  | nil => exact ⟨rfl, rfl⟩
  | cons c cs ih =>
    by_cases hc : c = x
    · subst hc
      simp [utf8EncodeChar_of_utf8Size hx]
    · have hother : ∀ b ∈ String.utf8EncodeChar c, (b != x.toUInt8) = true := by
        intro b hb
        rw [bne_iff_ne]
        rintro rfl
        exact hc ((mem_utf8EncodeChar_iff hx).mp hb)
      rw [encode_cons, List.takeWhile_append_of_pos hother, List.dropWhile_append_of_pos hother,
        ih.1, ih.2]
      simp [hc]

end ServiceChains.Text
