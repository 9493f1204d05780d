import ServiceChains.Proofs.Source.Buffer

/-!
# What blanking does to a single byte

A byte of a blanked text is that of the source or a space, also where several bytes of the source are
one character. Line breaks are kept in the code and in comments. A literal ends with its line, unless a
backslash stands before the line break: then blanking the literals overwrites the line break as well.
-/
namespace ServiceChains.Source

open Text

variable {literals : Bool} {before : Option UInt8} {bs bs' : List UInt8}

/-- Bytes of a buffer stand for those of a text that follow a given byte. Each is the same or a space,
and a line break is overwritten only with the literals, and only behind a backslash. -/
inductive Overwritten (literals : Bool) : Option UInt8 → List UInt8 → List UInt8 → Prop
  | nil {before : Option UInt8} : Overwritten literals before [] []
  | cons {before : Option UInt8} {b b' : UInt8} {bs bs' : List UInt8}
      (hkept : b' = b ∨ b' = ' '.toUInt8)
      (hbreak : b = '\n'.toUInt8 → b' ≠ b → literals = true ∧ before = some '\\'.toUInt8)
      (hlater : Overwritten literals (some b) bs bs') :
      Overwritten literals before (b :: bs) (b' :: bs')

namespace Overwritten

theorem refl (literals : Bool) (before : Option UInt8) (bs : List UInt8) :
    Overwritten literals before bs bs := by
  induction bs generalizing before with
  | nil => exact .nil
  | cons b bs ih => exact .cons (.inl rfl) (fun _ hne => absurd rfl hne) (ih _)

theorem spaced (h : '\n'.toUInt8 ∉ bs) : Overwritten literals before bs (spaced bs) := by
  induction bs generalizing before with
  | nil => exact .nil
  | cons b bs ih =>
    rw [List.mem_cons, not_or] at h
    exact .cons (.inr rfl) (fun hb => absurd hb.symm h.1) (ih h.2)

theorem append {ds ds' : List UInt8} (h : Overwritten literals before bs bs')
    (hlater : Overwritten literals (bs.getLast?.or before) ds ds') :
    Overwritten literals before (bs ++ ds) (bs' ++ ds') := by
  induction h with
  | nil => exact hlater
  | @cons before b b' bs bs' hkept hbreak _ ih =>
    refine .cons hkept hbreak (ih ?_)
    rw [List.getLast?_cons] at hlater
    cases hlast : bs.getLast? <;> rwa [hlast] at hlater

theorem length_eq (h : Overwritten literals before bs bs') : bs'.length = bs.length := by
  induction h with
  | nil => rfl
  | cons _ _ _ ih => rw [List.length_cons, List.length_cons, ih]

/-- What has become of a single byte. -/
theorem at_index (h : Overwritten literals before bs bs') {i : Nat} {b b' : UInt8}
    (hb : bs[i]? = some b) (hb' : bs'[i]? = some b') :
    (b' = b ∨ b' = ' '.toUInt8) ∧
      (b = '\n'.toUInt8 → b' ≠ b → literals = true ∧
        ((i = 0 ∧ before = some '\\'.toUInt8) ∨ ∃ j, j + 1 = i ∧ bs[j]? = some '\\'.toUInt8)) := by
  induction h generalizing i with
  | nil => cases hb
  | @cons before x x' bs bs' hkept hbreak _ ih =>
    cases i with
    | zero =>
      cases hb
      cases hb'
      refine ⟨hkept, fun hx hne => ?_⟩
      obtain ⟨hliterals, hbefore⟩ := hbreak hx hne
      exact ⟨hliterals, .inl ⟨rfl, hbefore⟩⟩
    | succ i =>
      obtain ⟨hsame, hrest⟩ := ih hb hb'
      refine ⟨hsame, fun hx hne => ?_⟩
      obtain ⟨hliterals, ⟨rfl, hx⟩ | ⟨j, rfl, hj⟩⟩ := hrest hx hne
      · exact ⟨hliterals, .inr ⟨0, rfl, hx⟩⟩
      · exact ⟨hliterals, .inr ⟨j + 1, rfl, hj⟩⟩

end Overwritten

section Steps

variable {mode : Mode} {c : Char} {next : Option Char}

/-- A line break inside a literal stands behind a backslash. -/
theorem exists_escaped_of_break (h : (step mode '\n' next).1 = .literal) :
    ∃ quote, mode = .escaped quote := by
  cases mode with
  | code | lineComment | blockComment | literal quote =>
    simp only [step] at h
    split_ifs at h with hfirst
    all_goals simp at hfirst
  | opening | closing => cases h
  | escaped quote => exact ⟨quote, rfl⟩

/-- Only a backslash escapes what follows. -/
theorem eq_backslash_of_escaped {quote : Char} (h : (step mode c next).2 = .escaped quote) :
    c = '\\' := by
  cases mode with
  | code | lineComment | blockComment =>
    simp only [step] at h
    split_ifs at h
  | opening | closing | escaped quote => cases h
  | literal quote =>
    simp only [step] at h
    split_ifs at h with hends hc
    exact hc

variable {literals : Bool} {before : Option UInt8}

/-- The bytes of one character, read in some mode: behind a backslash of a literal the last byte was
that backslash. -/
theorem overwritten_blankChar (hmode : ∀ quote, mode = .escaped quote → before = some '\\'.toUInt8) :
    Overwritten literals before (String.utf8EncodeChar c)
      (encode (blankChar literals (c, (step mode c next).1))) := by
  have hother (hc : c ≠ '\n') :
      Overwritten literals before (String.utf8EncodeChar c) (spaced (String.utf8EncodeChar c)) :=
    .spaced (by rwa [mem_utf8EncodeChar_iff rfl])
  cases hregion : (step mode c next).1 with
  | code =>
    rw [encode_blankChar_code]
    exact .refl ..
  | comment =>
    rw [encode_blankChar_comment]
    by_cases hc : c = '\n'
    · subst hc
      exact .refl ..
    · rw [spacedLines_of_notMem (by rwa [mem_utf8EncodeChar_iff rfl])]
      exact hother hc
  | literal =>
    rw [encode_blankChar_literal]
    split_ifs with hliterals
    · by_cases hc : c = '\n'
      · subst hc
        obtain ⟨quote, rfl⟩ := exists_escaped_of_break hregion
        exact .cons (.inr rfl) (fun _ _ => ⟨hliterals, hmode quote rfl⟩) .nil
      · exact hother hc
    · exact .refl ..

/-- The bytes of a text that is read from some mode on. -/
theorem overwritten_blankFrom (hmode : ∀ quote, mode = .escaped quote → before = some '\\'.toUInt8)
    (cs : List Char) :
    Overwritten literals before (encode cs) (encode (blankFrom literals mode cs)) := by
  induction cs generalizing mode before with
  | nil => exact .nil
  | cons c cs ih =>
    rw [blankFrom_cons, encode_append, encode_cons]
    refine (overwritten_blankChar hmode).append (ih ?_)
    intro quote hescaped
    rw [eq_backslash_of_escaped hescaped]
    rfl

end Steps

/-- The buffer of a source can always be filled, and it holds the bytes of a text: that of the blanked
source, so the source never has to stand in for it. The buffer has the length of the source. Each byte
of it is that of the source or a space, and a line break is overwritten only if the literals are blanked
and the byte before it is a backslash. -/
theorem buffer_holds_blanked_text (literals : Bool) (source : String) :
    ∃ buffer, blankBuffer? literals (bytes source) = some buffer ∧
      String.fromUTF8? buffer.toByteArray = some (String.ofList (blank literals source.toList)) ∧
      buffer.length = (bytes source).length ∧
      ∀ i b b', (bytes source)[i]? = some b → buffer[i]? = some b' →
        (b' = b ∨ b' = ' '.toUInt8) ∧
        (b = '\n'.toUInt8 → b' ≠ b →
          literals = true ∧ ∃ j, j + 1 = i ∧ (bytes source)[j]? = some '\\'.toUInt8) := by
  have hwritten : Overwritten literals none (encode source.toList)
      (encode (blankFrom literals .code source.toList)) :=
    overwritten_blankFrom (by simp) source.toList
  rw [bytes_eq_encode, blank_eq_blankFrom]
  refine ⟨_, agrees literals source.toList, fromUTF8?_encode _, hwritten.length_eq, ?_⟩
  intro i b b' hb hb'
  obtain ⟨hkept, hbreak⟩ := hwritten.at_index hb hb'
  refine ⟨hkept, fun hb hne => ?_⟩
  obtain ⟨hliterals, ⟨-, hnone⟩ | hbefore⟩ := hbreak hb hne
  · cases hnone
  · exact ⟨hliterals, hbefore⟩

/-- A literal with an escaped line break and an escaped character of two bytes, and an open comment. -/
def escapedBreak : String :=
  "'\\\n\\é' /*é\n"

/-- The line break of the literal is overwritten, that of the comment is not. -/
theorem buffer_holds_blanked_text_escaped :
    ∃ buffer, blankBuffer? true (bytes escapedBreak) = some buffer ∧
      String.fromUTF8? buffer.toByteArray = some "'     '     \n" ∧
      (bytes escapedBreak)[2]? = some '\n'.toUInt8 ∧ buffer[2]? = some ' '.toUInt8 ∧
      ∃ j, j + 1 = 2 ∧ (bytes escapedBreak)[j]? = some '\\'.toUInt8 := by
  obtain ⟨buffer, hbuffer, htext, -, hat⟩ := buffer_holds_blanked_text true escapedBreak
  have hblank : blank true escapedBreak.toList = "'     '     \n".toList := by decide
  have hbreak : (bytes escapedBreak)[2]? = some '\n'.toUInt8 := by cbv
  have hspace : (blankBuffer? true (bytes escapedBreak)).bind (·[2]?) = some ' '.toUInt8 := by cbv
  rw [hblank, String.ofList_toList] at htext
  rw [hbuffer] at hspace
  exact ⟨buffer, hbuffer, htext, hbreak, hspace, ((hat 2 _ _ hbreak hspace).2 rfl (by decide)).2⟩

end ServiceChains.Source
