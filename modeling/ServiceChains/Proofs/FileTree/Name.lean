import ServiceChains.FileTree.Name
import ServiceChains.Proofs.Text.Encoding
import ServiceChains.Proofs.Text.LastDot

/-!
# Names and their bytes

Every sequence of bytes is one name: its bytes say whether a name is a text, and which. The extension
of a name stands behind its last dot, whatever bytes stand in front of it.
-/
namespace ServiceChains

namespace Text

theorem toUTF8_data (s : String) : s.toUTF8 = (bytes s).toByteArray := by
  rw [bytes]
  exact ByteArray.ext (by simp)

/-- Bytes are read as a text exactly if they are its bytes. -/
theorem fromUTF8?_toByteArray_iff {bs : List UInt8} {s : String} :
    String.fromUTF8? bs.toByteArray = some s ↔ bs = bytes s := by
  constructor
  · intro h
    have hcontent := toUTF8_of_fromUTF8? h
    rw [bytes, hcontent, List.data_toByteArray]
  · rintro rfl
    rw [← toUTF8_data, fromUTF8?_toUTF8]

/-- A character of one byte is found among the characters of a text and among its bytes. -/
theorem toUInt8_mem_bytes_iff {x : Char} (hx : x.utf8Size = 1) (s : String) :
    x.toUInt8 ∈ bytes s ↔ x ∈ s.toList := by
  simp [bytes_eq_flatMap, List.mem_flatMap, mem_utf8EncodeChar_iff hx]

end Text

namespace FileName

theorem fromUTF8?_content (n : FileName) : String.fromUTF8? n.content = n.text? := by
  cases n with
  | text s => exact Text.fromUTF8?_toUTF8 s
  | raw content notText => exact notText

/-- Names with the same bytes are the same. -/
theorem bytes_injective : Function.Injective bytes := by
  intro m n h
  have hcontent : m.content = n.content := ByteArray.ext (Array.toList_inj.mp h)
  have htext : m.text? = n.text? := by
    rw [← fromUTF8?_content, hcontent, fromUTF8?_content]
  cases m with
  | text s =>
    cases n with
    | text t => exact congrArg text (Option.some.inj htext)
    | raw => cases htext
  | raw content =>
    cases n with
    | text => cases htext
    | raw other =>
      obtain rfl : content = other := hcontent
      rfl

/-- A name ends with an extension behind its last dot, and has something before that. -/
def HasExtension (n : FileName) (extension : String) : Prop :=
  '.' ∉ extension.toList ∧
    ∃ stem, stem ≠ [] ∧ n.bytes = stem ++ '.'.toUInt8 :: Text.bytes extension

/-- The extension of a name is what follows its last dot, if something stands before that. -/
theorem extension?_eq_some_iff {n : FileName} {extension : String} :
    n.extension? = some extension ↔ n.HasExtension extension := by
  rw [extension?, Option.bind_eq_some_iff, HasExtension,
    ← Text.toUInt8_mem_bytes_iff (by decide) extension]
  simp only [Path.cutAtLast_eq_some_iff, Text.fromUTF8?_toByteArray_iff, exists_eq_right]

end FileName

end ServiceChains
