import Mathlib
import ServiceChains.Text.Blank

/-!
# Trimmed texts

A trimmed text has no character of the class at its ends, and trimming leaves such a text alone, also
if characters of the class are put around it. It is the only text without such ends that is left of
the whole when characters of the class are taken off.
-/
namespace ServiceChains.Text

variable {p : Char → Bool}

theorem dropEndWhile_eq_rdropWhile (p : Char → Bool) (cs : List Char) :
    dropEndWhile p cs = cs.rdropWhile p := rfl

theorem mem_of_mem_stripWhile {cs : List Char} {x : Char} (h : x ∈ stripWhile p cs) : x ∈ cs := by
  rw [stripWhile, dropEndWhile_eq_rdropWhile] at h
  exact (List.dropWhile_suffix p).subset ((List.rdropWhile_prefix p _).subset h)

/-- No character of class `p` stands at either end. -/
structure Stripped (p : Char → Bool) (cs : List Char) : Prop where
  head : ∀ x ∈ cs.head?, p x = false
  last : ∀ x ∈ cs.getLast?, p x = false

theorem stripped_stripWhile (p : Char → Bool) (cs : List Char) : Stripped p (stripWhile p cs) := by
  have hstrip : stripWhile p cs = (cs.dropWhile p).rdropWhile p := rfl
  constructor
  · intro x hx
    obtain ⟨rest, hrest⟩ := List.rdropWhile_prefix p (cs.dropWhile p)
    have hhead : (cs.dropWhile p).head? = some x := by
      rw [← hrest, List.head?_append, ← hstrip, hx]
      rfl
    have hnot := List.head?_dropWhile_not p cs
    rwa [hhead] at hnot
  · intro x hx
    rw [hstrip] at hx
    have hne : (cs.dropWhile p).rdropWhile p ≠ [] := by
      intro hnil
      rw [hnil] at hx
      cases hx
    have hlast := List.rdropWhile_last_not p (cs.dropWhile p) hne
    rw [List.getLast?_eq_some_getLast hne, Option.mem_some_iff] at hx
    rw [hx] at hlast
    simpa using hlast

/-- A text is what is left of it with characters of the class around it. -/
theorem exists_eq_around_stripWhile (p : Char → Bool) (cs : List Char) :
    ∃ before after, (∀ x ∈ before, p x = true) ∧ (∀ x ∈ after, p x = true) ∧
      cs = before ++ (stripWhile p cs ++ after) := by
  refine ⟨cs.takeWhile p, (cs.dropWhile p).rtakeWhile p, fun x => List.mem_takeWhile_imp,
    fun x => List.mem_rtakeWhile_imp, ?_⟩
  rw [stripWhile, dropEndWhile_eq_rdropWhile, List.rdropWhile_append_rtakeWhile,
    List.takeWhile_append_dropWhile]

theorem dropWhile_append_eq {around rest : List Char} (haround : ∀ x ∈ around, p x = true)
    (hrest : ∀ x ∈ rest.head?, p x = false) : (around ++ rest).dropWhile p = rest := by
  rw [List.dropWhile_append_of_pos haround]
  cases rest with
  | nil => rfl
  | cons x rest => exact List.dropWhile_cons_of_neg (by simp [hrest x rfl])

theorem ne_of_class {c d : Char} (hc : p c = true) (hd : p d = false) : c ≠ d := by
  rintro rfl
  rw [hc] at hd
  cases hd

/-- A text has one longest run of characters of the class at its beginning. -/
theorem run_inj {run run' rest rest' : List Char} {c c' : Char} (hrun : ∀ x ∈ run, p x = true)
    (hrun' : ∀ x ∈ run', p x = true) (hc : p c = false) (hc' : p c' = false)
    (h : run ++ c :: rest = run' ++ c' :: rest') : run = run' ∧ c = c' ∧ rest = rest' := by
  have hhead : ∀ x ∈ (c :: rest).head?, p x = false := by simpa using hc
  have hhead' : ∀ x ∈ (c' :: rest').head?, p x = false := by simpa using hc'
  have htail : c :: rest = c' :: rest' := by
    rw [← dropWhile_append_eq hrun hhead, h, dropWhile_append_eq hrun' hhead']
  rw [htail] at h
  exact ⟨List.append_cancel_right h, List.cons.inj htail⟩

/-- Characters of the class around a text without any at its ends are all that is dropped. -/
theorem stripWhile_around {before cs after : List Char} (hbefore : ∀ x ∈ before, p x = true)
    (hcs : Stripped p cs) (hafter : ∀ x ∈ after, p x = true) :
    stripWhile p (before ++ (cs ++ after)) = cs := by
  by_cases hne : cs = []
  · subst hne
    have hall : ∀ x ∈ before ++ ([] ++ after), p x = true := by
      intro x hx
      rcases List.mem_append.mp hx with hx | hx
      · exact hbefore x hx
      · exact hafter x hx
    rw [stripWhile, List.dropWhile_eq_nil_iff.mpr hall]
    rfl
  · have hhead : ∀ x ∈ (cs ++ after).head?, p x = false := by
      rw [List.head?_append_of_ne_nil _ hne]
      exact hcs.head
    have hlast : ∀ x ∈ cs.reverse.head?, p x = false := by
      rw [List.head?_reverse]
      exact hcs.last
    have hturned : ∀ x ∈ after.reverse, p x = true := by simpa using hafter
    rw [stripWhile, dropWhile_append_eq hbefore hhead, dropEndWhile, List.reverse_append,
      dropWhile_append_eq hturned hlast, List.reverse_reverse]

theorem stripWhile_of_stripped {cs : List Char} (h : Stripped p cs) : stripWhile p cs = cs := by
  have hnone : ∀ x ∈ ([] : List Char), p x = true := by simp
  simpa using stripWhile_around hnone h hnone

theorem stripped_of_forall {cs : List Char} (h : ∀ x ∈ cs, p x = false) : Stripped p cs :=
  ⟨fun x hx => h x (List.mem_of_mem_head? hx), fun x hx => h x (List.mem_of_mem_getLast? hx)⟩

/-- What is left of a text is the part between the characters of the class at its ends. -/
theorem stripWhile_eq_iff {cs core : List Char} :
    stripWhile p cs = core ↔ Stripped p core ∧ ∃ before after, (∀ x ∈ before, p x = true) ∧
      (∀ x ∈ after, p x = true) ∧ cs = before ++ (core ++ after) := by
  constructor
  · rintro rfl
    exact ⟨stripped_stripWhile p cs, exists_eq_around_stripWhile p cs⟩
  · rintro ⟨hcore, before, after, hbefore, hafter, rfl⟩
    exact stripWhile_around hbefore hcore hafter

/-- What is left in front is the text up to the characters of the class at its end. -/
theorem dropEndWhile_eq_iff {cs front : List Char} :
    dropEndWhile p cs = front ↔ (∀ x ∈ front.getLast?, p x = false) ∧
      ∃ after, (∀ x ∈ after, p x = true) ∧ cs = front ++ after := by
  constructor
  · rintro rfl
    refine ⟨?_, cs.rtakeWhile p, fun x => List.mem_rtakeWhile_imp, ?_⟩
    · intro x hx
      rw [dropEndWhile, List.getLast?_reverse] at hx
      have hnot := List.head?_dropWhile_not p cs.reverse
      rwa [Option.mem_def.mp hx] at hnot
    · rw [dropEndWhile_eq_rdropWhile, List.rdropWhile_append_rtakeWhile]
  · rintro ⟨hfront, after, hafter, rfl⟩
    have hlast : ∀ x ∈ front.reverse.head?, p x = false := by rwa [List.head?_reverse]
    have hturned : ∀ x ∈ after.reverse, p x = true := by simpa using hafter
    rw [dropEndWhile, List.reverse_append, dropWhile_append_eq hturned hlast,
      List.reverse_reverse]

theorem occursIn_iff {α : Type} [BEq α] [LawfulBEq α] {part items : List α} :
    occursIn part items = true ↔ part <:+: items := by
  induction items with
  | nil => rw [occursIn, List.isEmpty_iff, List.infix_nil]
  | cons x items ih =>
    rw [occursIn, Bool.or_eq_true, List.isPrefixOf_iff_prefix, ih, List.infix_cons_iff]

end ServiceChains.Text
