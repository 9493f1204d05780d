import Mathlib
import ServiceChains.CallSite
import ServiceChains.Path

/-!
# Texts cut at their last dot

What follows the last dot of a text has no dot itself, and is the only part at the end of the text of
which that is true and that stands behind a dot. So the name of a method can be read off the full
name of a caller, and the extension of a file off its name.
-/
namespace ServiceChains

section LastSeparator

variable {α : Type} [BEq α] [LawfulBEq α] {sep : α} {cs : List α}

theorem notMem_rtakeWhile (sep : α) (cs : List α) : sep ∉ cs.rtakeWhile (· != sep) := by
  intro hmem
  have hother := List.mem_rtakeWhile_imp hmem
  simp at hother

theorem rtakeWhile_of_notMem (h : sep ∉ cs) : cs.rtakeWhile (· != sep) = cs := by
  rw [List.rtakeWhile_eq_self_iff]
  intro x hx
  rw [bne_iff_ne]
  rintro rfl
  exact h hx

theorem rtakeWhile_append_cons (before : List α) (h : sep ∉ cs) :
    (before ++ sep :: cs).rtakeWhile (· != sep) = cs := by
  induction cs using List.reverseRecOn with
  | nil => exact List.rtakeWhile_concat_neg _ _ _ (by simp)
  | append_singleton cs x ih =>
    rw [List.mem_append, not_or, List.mem_singleton] at h
    have hassoc : before ++ sep :: (cs ++ [x]) = (before ++ sep :: cs) ++ [x] := by simp
    rw [hassoc, List.rtakeWhile_concat_pos _ _ _ (by simpa using Ne.symm h.2), ih h.1]

/-- A text with a separator is cut at the last one. -/
theorem exists_eq_append_rtakeWhile (h : sep ∈ cs) :
    ∃ before, cs = before ++ sep :: cs.rtakeWhile (· != sep) := by
  -- The last separator is the first one from the end.
  obtain ⟨after, before, hturned, hafter⟩ := List.eq_append_cons_of_mem (List.mem_reverse.mpr h)
  obtain rfl : cs = before.reverse ++ sep :: after.reverse := by
    rw [← List.reverse_reverse cs, hturned]
    simp
  exact ⟨before.reverse, by rw [rtakeWhile_append_cons _ (by simpa using hafter)]⟩

end LastSeparator

/-- The name has no dot, and the text is this name or ends with it behind a dot. -/
def IsLastSegment (name text : String) : Prop :=
  '.' ∉ name.toList ∧ (text = name ∨ ∃ before, text = before ++ "." ++ name)

theorem afterLastDot_eq (text : String) :
    afterLastDot text = String.ofList (text.toList.rtakeWhile (· != '.')) := rfl

/-- What follows the last dot of a text is found behind whatever stands in front of it. -/
theorem afterLastDot_append (unit name : String) (h : '.' ∉ name.toList) :
    afterLastDot (unit ++ "." ++ name) = name := by
  have htext : (unit ++ "." ++ name).toList = unit.toList ++ '.' :: name.toList := by simp
  rw [afterLastDot_eq, htext, rtakeWhile_append_cons _ h, String.ofList_toList]

/-- What follows the last dot of a text, or the whole text, is its last segment. -/
theorem afterLastDot_eq_iff {name text : String} :
    afterLastDot text = name ↔ IsLastSegment name text := by
  constructor
  · rintro rfl
    rw [afterLastDot_eq]
    refine ⟨by simpa using notMem_rtakeWhile '.' text.toList, ?_⟩
    by_cases hdot : '.' ∈ text.toList
    · obtain ⟨before, hcut⟩ := exists_eq_append_rtakeWhile hdot
      refine .inr ⟨String.ofList before, ?_⟩
      rw [← String.toList_inj]
      simpa using hcut
    · refine .inl ?_
      rw [rtakeWhile_of_notMem hdot, String.ofList_toList]
  · rintro ⟨hdot, rfl | ⟨before, rfl⟩⟩
    · rw [afterLastDot_eq, rtakeWhile_of_notMem hdot, String.ofList_toList]
    · exact afterLastDot_append before name hdot

namespace Path

variable {α : Type} [BEq α] [LawfulBEq α] {sep : α} {xs : List α}

theorem cutAtLast_of_notMem (h : sep ∉ xs) : cutAtLast sep xs = (xs, none) := by
  have hdot : xs.contains sep = false := by simpa using h
  simp only [cutAtLast, hdot, Bool.not_false, if_true]

/-- A sequence is cut at the last separator, unless nothing stands before that. -/
theorem cutAtLast_append {before after : List α} (hafter : sep ∉ after) :
    cutAtLast sep (before ++ sep :: after) =
      if before = [] then (before ++ sep :: after, none) else (before, some after) := by
  have hturned : ((before ++ sep :: after).reverse.takeWhile (· != sep)).reverse = after :=
    rtakeWhile_append_cons before hafter
  have hsep : (before ++ sep :: after).contains sep = true := by simp
  have hbefore : (before ++ sep :: after).take
      ((before ++ sep :: after).length - after.length - 1) = before := by
    have hlength : (before ++ sep :: after).length - after.length - 1 = before.length := by
      rw [List.length_append, List.length_cons]
      omega
    rw [hlength, List.take_left]
  simp only [cutAtLast, hturned, hsep, hbefore, Bool.not_true, Bool.false_eq_true, if_false,
    List.isEmpty_iff]

/-- What is cut off behind the last separator has none itself, and something stands before that. -/
theorem cutAtLast_eq_some_iff {after : List α} :
    (cutAtLast sep xs).2 = some after ↔
      sep ∉ after ∧ ∃ before, before ≠ [] ∧ xs = before ++ sep :: after := by
  constructor
  · intro h
    by_cases hsep : sep ∈ xs
    · obtain ⟨before, hcut⟩ := exists_eq_append_rtakeWhile hsep
      have hnot := notMem_rtakeWhile sep xs
      generalize xs.rtakeWhile (· != sep) = rest at hcut hnot
      subst hcut
      rw [cutAtLast_append hnot] at h
      split_ifs at h with hempty
      cases h
      exact ⟨hnot, before, hempty, rfl⟩
    · rw [cutAtLast_of_notMem hsep] at h
      cases h
  · rintro ⟨hnot, before, hne, rfl⟩
    rw [cutAtLast_append hnot, if_neg hne]

end Path

end ServiceChains
