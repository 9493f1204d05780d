import ServiceChains.Proofs.Text.Cursor
import ServiceChains.Source.Region

/-!
# Offsets of a blanked text

Blanking keeps every byte offset, but it makes several spaces of one character, so a cut of the
blanked text need not be one of the source. It is one wherever spaces do not stand on both sides.
-/
namespace ServiceChains.Source

open Text

/-- Labelling keeps the characters. -/
theorem map_fst_labelFrom (mode : Mode) (done : List (Char × Region)) (cs : List Char) :
    (labelFrom mode done cs).map Prod.fst = (done.map Prod.fst).reverse ++ cs := by
  induction cs generalizing mode done with
  | nil => simp [labelFrom]
  | cons c cs ih =>
    rw [labelFrom, ih]
    simp

theorem map_fst_label (source : List Char) : (label source).map Prod.fst = source := by
  rw [label, map_fst_labelFrom]
  rfl

theorem blankChar_eq (literals : Bool) (l : Char × Region) :
    blankChar literals l =
      if isBlanked literals l.1 l.2 then List.replicate l.1.utf8Size ' ' else [l.1] := rfl

theorem utf8Size_space : ' '.utf8Size = 1 := rfl

@[simp] theorem byteSize_replicate_space (n : Nat) : byteSize (List.replicate n ' ') = n := by
  simp [byteSize_eq_sum, utf8Size_space]

@[simp] theorem byteSize_blankChar (literals : Bool) (l : Char × Region) :
    byteSize (blankChar literals l) = l.1.utf8Size := by
  rw [blankChar_eq]
  split_ifs <;> simp

/-- Blanking keeps the number of bytes. -/
theorem byteSize_blank (literals : Bool) (source : List Char) :
    byteSize (blank literals source) = byteSize source := by
  have hlabels (labels : List (Char × Region)) :
      byteSize (labels.flatMap (blankChar literals)) = byteSize (labels.map Prod.fst) := by
    induction labels with
    | nil => rfl
    | cons l labels ih => simp [ih]
  rw [blank, hlabels, map_fst_label]

/-- A character that is blanked is cut only between two spaces. -/
theorem spaces_of_blankChar_eq_append {literals : Bool} {l : Char × Region}
    {before after : List Char} (h : blankChar literals l = before ++ after) (hbefore : before ≠ [])
    (hafter : after ≠ []) : before.getLast? = some ' ' ∧ after.head? = some ' ' := by
  have hlast := List.getLast?_eq_some_getLast hbefore
  have hhead := List.head?_eq_some_head hafter
  rw [blankChar_eq] at h
  split_ifs at h with hblanked
  · have hspace : ∀ x ∈ before ++ after, x = ' ' := fun x hx => List.eq_of_mem_replicate (h ▸ hx)
    constructor
    · rw [hlast, hspace _ (List.mem_append_left _ (List.getLast_mem hbefore))]
    · rw [hhead, hspace _ (List.mem_append_right _ (List.head_mem hafter))]
  · -- What is left alone is one character and cannot be cut.
    have hlength := congrArg List.length h
    have hone := List.length_pos_iff.mpr hbefore
    have hother := List.length_pos_iff.mpr hafter
    simp only [List.length_singleton, List.length_append] at hlength
    omega

theorem isBoundary_of_flatMap_blankChar {literals : Bool} {labels : List (Char × Region)}
    {before after : List Char} (h : labels.flatMap (blankChar literals) = before ++ after)
    (hsides : before.getLast? ≠ some ' ' ∨ after.head? ≠ some ' ') :
    IsBoundary (labels.map Prod.fst) (byteSize before) := by
  induction labels generalizing before with
  | nil =>
    have hnil : before = [] := (List.append_eq_nil_iff.mp h.symm).1
    exact ⟨[], [], rfl, by rw [hnil]⟩
  | cons l labels ih =>
    rw [List.flatMap_cons] at h
    by_cases hbefore : before = []
    · exact ⟨[], _, rfl, by rw [hbefore]⟩
    rcases List.append_eq_append_iff.mp h with ⟨later, rfl, hlater⟩ | ⟨rest, hhere, rfl⟩
    · have hrest : later.getLast? ≠ some ' ' ∨ after.head? ≠ some ' ' := by
        by_cases hnil : later = []
        · exact .inl (by simp [hnil])
        · rwa [List.getLast?_append_of_ne_nil _ hnil] at hsides
      obtain ⟨chars, others, hcut, hsize⟩ := ih hlater hrest
      exact ⟨l.1 :: chars, others, by rw [List.map_cons, hcut, List.cons_append], by simp [hsize]⟩
    · by_cases hnil : rest = []
      · subst hnil
        rw [List.append_nil] at hhere
        exact ⟨[l.1], labels.map Prod.fst, rfl, by simp [← hhere]⟩
      · -- The cut goes through the character itself.
        obtain ⟨hlast, hhead⟩ := spaces_of_blankChar_eq_append hhere hbefore hnil
        rw [List.head?_append_of_ne_nil _ hnil] at hsides
        exact absurd hsides (by simp [hlast, hhead])

/-- A cut of a blanked text is a cut of the source unless it goes between two spaces. -/
theorem isBoundary_of_blank {literals : Bool} {source before after : List Char}
    (h : blank literals source = before ++ after)
    (hsides : before.getLast? ≠ some ' ' ∨ after.head? ≠ some ' ') :
    IsBoundary source (byteSize before) := by
  have hboundary := isBoundary_of_flatMap_blankChar h hsides
  rwa [map_fst_label] at hboundary

end ServiceChains.Source
