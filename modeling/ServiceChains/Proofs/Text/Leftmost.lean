import ServiceChains.Proofs.Text.Cursor

/-!
# First finds

A scan finds something no later than at the first place where its reader succeeds. A reader may take
exactly the texts of some spelling, whatever stands around them. If what is found first in each of two
texts stands at the same offset in the other one, such a reader finds the same first in both.
-/
namespace ServiceChains.Text

/-- A text is cut at a byte offset in one way only. -/
theorem append_inj_of_byteSize_eq {before after before' after' : List Char}
    (h : before ++ after = before' ++ after') (hsize : byteSize before = byteSize before') :
    before = before' ∧ after = after' := by
  rcases List.append_eq_append_iff.mp h with ⟨between, rfl, rfl⟩ | ⟨between, rfl, rfl⟩ <;>
    rw [byteSize_append] at hsize <;>
    obtain rfl : between = [] := eq_nil_of_byteSize_eq_zero (by omega)
  all_goals simp

variable {α : Type} {read : Reader α}

theorem exists_head?_scanFrom {before skipped rest : List Char} {resume : Nat} {value : α}
    {after : Cursor} (hresume : resume ≤ byteSize before) (hrest : rest ≠ [])
    (hread : read ⟨(before ++ skipped).getLast?, byteSize (before ++ skipped), rest⟩ =
      some (value, after)) :
    ∃ f, (scanFrom read resume [] before.getLast? (byteSize before) (skipped ++ rest)).head? =
      some f ∧ f.start ≤ byteSize (before ++ skipped) := by
  induction skipped generalizing before with
  | nil =>
    obtain ⟨c, cs, rfl⟩ := List.exists_cons_of_ne_nil hrest
    rw [List.append_nil] at hread
    rw [List.nil_append, scanFrom, if_neg (by omega)]
    simp only [hread]
    rw [scanFrom_found]
    exact ⟨_, rfl, by simp⟩
  | cons c skipped ih =>
    rw [List.cons_append, scanFrom, if_neg (by omega)]
    cases hhere : read ⟨before.getLast?, byteSize before, c :: (skipped ++ rest)⟩ with
    | some result =>
      simp only
      rw [scanFrom_found]
      exact ⟨_, rfl, by simp⟩
    | none =>
      have hlast : (before ++ [c]).getLast? = some c := by simp
      have hsize : byteSize (before ++ [c]) = byteSize before + c.utf8Size := by simp
      have hcut : before ++ c :: skipped = before ++ [c] ++ skipped := by simp
      simp only
      rw [hcut] at hread ⊢
      rw [← hlast, ← hsize]
      exact ih (by omega) hread

/-- The first find stands no later than any place where the reader succeeds. -/
theorem exists_first_of_read {text before rest : List Char} {value : α} {after : Cursor}
    (htext : text = before ++ rest) (hrest : rest ≠ [])
    (hread : read ⟨before.getLast?, byteSize before, rest⟩ = some (value, after)) :
    ∃ f ∈ (scan read text).head?, f.start ≤ byteSize before := by
  have hstart : 0 ≤ byteSize [] := le_rfl
  rw [← List.nil_append before] at hread
  rw [htext]
  exact exists_head?_scanFrom hstart hrest hread

/-- A reader takes exactly the texts that are spelled in a given way, whatever stands around them. -/
def Takes (read : Reader α) (Spelled : α → List Char → Prop) : Prop :=
  ∀ c value d, read c = some (value, d) ↔ ∃ taken, Spelled value taken ∧ c.Passes taken d

section Spellings

variable {Spelled : α → List Char → Prop} (htakes : Takes read Spelled)
  (hne : ∀ value taken, Spelled value taken → taken ≠ [])

include htakes

theorem Takes.exists_read {value : α} {taken : List Char} (h : Spelled value taken)
    (before : Option Char) (offset : Nat) (rest : List Char) :
    ∃ d, read ⟨before, offset, taken ++ rest⟩ = some (value, d) := by
  refine ⟨⟨taken.getLast?.or before, offset + byteSize taken, rest⟩, ?_⟩
  exact (htakes _ _ _).mpr ⟨taken, h, rfl, rfl, rfl⟩

include hne

/-- What is found first in one text is found in another one that has it at the same offset, unless
something is found there earlier. -/
theorem Takes.exists_first_le {text text' : List Char} {f : Found α}
    (hf : f ∈ (scan read text).head?)
    (hslice : slice? f.start f.stop text = slice? f.start f.stop text') :
    ∃ f' ∈ (scan read text').head?, f'.start ≤ f.start ∧
      (f'.start = f.start → f'.value = f.value) := by
  obtain ⟨before, rest, after, hfound⟩ := foundAt_of_mem_scan (List.mem_of_mem_head? hf)
  obtain ⟨taken, hspelled, hpass⟩ := (htakes _ _ _).mp hfound.read_eq
  have hrest : rest = taken ++ after.rest := hpass.rest_eq
  have hpart : slice? f.start f.stop text' = some taken := by
    rw [← hslice, hfound.text_eq, hrest, hfound.start_eq, hfound.stop_eq, hpass.offset_eq,
      slice?_append]
  obtain ⟨before', after', htext', hsize⟩ := exists_parts_of_slice? hpart
  obtain ⟨d, hread⟩ := htakes.exists_read hspelled before'.getLast? (byteSize before') after'
  have hsome : taken ++ after' ≠ [] := by simp [hne f.value taken hspelled]
  obtain ⟨f', hf', hle⟩ := exists_first_of_read htext' hsome hread
  refine ⟨f', hf', hsize ▸ hle, ?_⟩
  intro hsame
  obtain ⟨before'', rest'', after'', hfound'⟩ := foundAt_of_mem_scan (List.mem_of_mem_head? hf')
  have hplace : byteSize before'' = byteSize before' := by
    rw [← hfound'.start_eq, hsame, hsize]
  obtain ⟨rfl, rfl⟩ := append_inj_of_byteSize_eq (hfound'.text_eq.symm.trans htext') hplace
  have hread' := Option.some.inj (hfound'.read_eq.symm.trans hread)
  exact (Prod.mk.inj hread').1

/-- Two texts have the same first find if what it takes stands in both of them, wherever it is found
first. -/
theorem Takes.first?_eq {text text' : List Char}
    (h : ∀ f, f ∈ (scan read text).head? ∨ f ∈ (scan read text').head? →
      slice? f.start f.stop text = slice? f.start f.stop text') :
    first? read text = first? read text' := by
  cases hf : (scan read text).head? with
  | none =>
    cases hf' : (scan read text').head? with
    | none => rw [first?, first?, hf, hf']
    | some f' =>
      obtain ⟨f, hmem, -⟩ := htakes.exists_first_le hne hf' (h f' (.inr hf')).symm
      rw [hf] at hmem
      cases hmem
  | some f =>
    obtain ⟨f', hf', hle, hvalue⟩ := htakes.exists_first_le hne hf (h f (.inl hf))
    obtain ⟨g, hg, hge, -⟩ := htakes.exists_first_le hne hf' (h f' (.inr hf')).symm
    obtain rfl : g = f := Option.some.inj (hg.symm.trans hf)
    rw [first?, first?, hf, hf', Option.map_some, Option.map_some,
      hvalue (Nat.le_antisymm hle hge)]

end Spellings

end ServiceChains.Text
