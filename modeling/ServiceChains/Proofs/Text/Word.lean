import Mathlib
import ServiceChains.Text.Word

/-!
# The table of word characters

Halving a table of ranges that are in order finds the range of a number if there is one. The table of
word characters is in order, so a character beyond the ASCII block is a word character if and only if
it lies in a range of the table.
-/
namespace ServiceChains.Text

/-- The first range ends before the second one begins. -/
def EndsBefore (r s : Nat × Nat) : Prop :=
  r.1 ≤ r.2 ∧ r.2 < s.1 ∧ s.1 ≤ s.2

instance (r s : Nat × Nat) : Decidable (EndsBefore r s) :=
  inferInstanceAs (Decidable (_ ∧ _ ∧ _))

theorem EndsBefore.trans {r s t : Nat × Nat} (h : EndsBefore r s) (h' : EndsBefore s t) :
    EndsBefore r t := by
  unfold EndsBefore at *
  omega

section Halving

variable {ranges : Array (Nat × Nat)} (hordered : ranges.toList.Pairwise EndsBefore)

include hordered

theorem endsBefore_of_lt {i j : Nat} {r s : Nat × Nat} (hr : ranges[i]? = some r)
    (hs : ranges[j]? = some s) (hlt : i < j) : EndsBefore r s := by
  obtain ⟨hi, rfl⟩ := Array.getElem?_eq_some_iff.mp hr
  obtain ⟨hj, rfl⟩ := Array.getElem?_eq_some_iff.mp hs
  exact List.pairwise_iff_getElem.mp hordered i j hi hj hlt

/-- Halving finds the range of a number among those that it is given. -/
theorem inRanges_iff {n lo hi : Nat} (hhi : hi ≤ ranges.size) :
    inRanges ranges n lo hi = true ↔
      ∃ i r, lo ≤ i ∧ i < hi ∧ ranges[i]? = some r ∧ r.1 ≤ n ∧ n ≤ r.2 := by
  fun_induction inRanges ranges n lo hi with
  | case1 lo hi h mid hnone =>
    have hmid : mid < ranges.size := by omega
    rw [Array.getElem?_eq_getElem hmid] at hnone
    cases hnone
  | case2 lo hi h mid first last hmid hbelow ih =>
    rw [ih (by omega)]
    constructor
    · rintro ⟨i, r, hlo, hi, hr, hn⟩
      exact ⟨i, r, hlo, by omega, hr, hn⟩
    · rintro ⟨i, r, hlo, hi, hr, hn⟩
      refine ⟨i, r, hlo, ?_, hr, hn⟩
      by_contra hge
      rcases Nat.eq_or_lt_of_le (Nat.le_of_not_lt hge) with rfl | hlt
      · cases hmid.symm.trans hr
        omega
      · have hbefore := endsBefore_of_lt hordered hmid hr hlt
        unfold EndsBefore at hbefore
        omega
  | case3 lo hi h mid first last hmid hbelow habove ih =>
    rw [ih hhi]
    constructor
    · rintro ⟨i, r, hlo, hi, hr, hn⟩
      exact ⟨i, r, by omega, hi, hr, hn⟩
    · rintro ⟨i, r, hlo, hi, hr, hn⟩
      refine ⟨i, r, ?_, hi, hr, hn⟩
      by_contra hle
      rcases Nat.eq_or_lt_of_le (Nat.le_of_lt_succ (Nat.lt_of_not_le hle)) with rfl | hlt
      · cases hmid.symm.trans hr
        omega
      · have hbefore := endsBefore_of_lt hordered hr hmid hlt
        unfold EndsBefore at hbefore
        omega
  | case4 lo hi h mid first last hmid hbelow habove =>
    simp only [true_iff]
    exact ⟨mid, (first, last), by omega, by omega, hmid, by simp only; omega⟩
  | case5 lo hi h =>
    simp only [Bool.false_eq_true, false_iff]
    rintro ⟨i, r, hlo, hi, -⟩
    omega

theorem inRanges_all_iff {n : Nat} :
    inRanges ranges n 0 ranges.size = true ↔ ∃ r ∈ ranges, r.1 ≤ n ∧ n ≤ r.2 := by
  rw [inRanges_iff hordered le_rfl]
  constructor
  · rintro ⟨i, r, -, -, hr, hn⟩
    exact ⟨r, Array.mem_of_getElem? hr, hn⟩
  · rintro ⟨r, hr, hn⟩
    obtain ⟨i, hi, rfl⟩ := Array.mem_iff_getElem.mp hr
    exact ⟨i, _, Nat.zero_le i, hi, Array.getElem?_eq_getElem hi, hn⟩

end Halving

theorem isChain_wordRanges : wordRanges.toList.IsChain EndsBefore := by
  decide +kernel

theorem pairwise_wordRanges : wordRanges.toList.Pairwise EndsBefore := by
  have htrans : IsTrans (Nat × Nat) EndsBefore := ⟨fun _ _ _ => EndsBefore.trans⟩
  exact List.isChain_iff_pairwise.mp isChain_wordRanges

theorem lt_of_mem_wordRanges {r : Nat × Nat} (h : r ∈ wordRanges) : 127 < r.1 := by
  have hall : ∀ r ∈ wordRanges.toList, 127 < r.1 := by decide +kernel
  exact hall r (Array.mem_toList_iff.mpr h)

theorem toNat_lt_of_isAsciiWord {c : Char} (h : isAsciiWord c = true) : c.toNat < 128 := by
  simp only [isAsciiWord, Char.isAlphanum, Char.isAlpha, Char.isUpper, Char.isLower, Char.isDigit,
    Bool.or_eq_true, Bool.and_eq_true, decide_eq_true_eq, beq_iff_eq, UInt32.le_iff_toNat_le] at h
  rcases h with h | rfl
  · simp only [Char.toNat_val, Char.reduceToNat] at h
    omega
  · decide

/-- A word character is a letter, a digit or the underscore of the ASCII block, or it lies in a range
of the table. -/
theorem isWord_iff {c : Char} :
    isWord c = true ↔
      isAsciiWord c = true ∨ ∃ r ∈ wordRanges, r.1 ≤ c.toNat ∧ c.toNat ≤ r.2 := by
  rw [isWord]
  split_ifs with hascii
  · refine (or_iff_left ?_).symm
    rintro ⟨r, hr, hfirst, -⟩
    have hlarge := lt_of_mem_wordRanges hr
    omega
  · rw [inRanges_all_iff pairwise_wordRanges]
    exact (or_iff_right fun h => hascii (toNat_lt_of_isAsciiWord h)).symm

end ServiceChains.Text
