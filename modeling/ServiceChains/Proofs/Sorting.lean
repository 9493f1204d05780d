import Mathlib.Data.List.Sort
import Mathlib.Data.String.Basic
import ServiceChains.Table

/-!
# Sorted names

Items that are sorted by a name of theirs keep their order among equal names, so sorting them is the
same as going through the names in order and listing the items of each. Sorting strings is canonical:
two lists have the same sorted list exactly if one is a permutation of the other.
-/
namespace ServiceChains

section ByKey

variable {α β : Type} [LinearOrder β] {key : α → β}

/-- Distinct items with distinct keys are strictly increasing once they are sorted by their keys. -/
theorem pairwise_lt_mergeSort {le : α → α → Bool} (hkey : Function.Injective key)
    (hle : ∀ a b, le a b = true ↔ key a ≤ key b) {items : List α} (hn : items.Nodup) :
    (items.mergeSort le).Pairwise fun a b => key a < key b := by
  have hsorted : (items.mergeSort le).Pairwise fun a b => le a b = true := by
    apply List.pairwise_mergeSort
    · intro a b c hab hbc
      rw [hle] at *
      exact hab.trans hbc
    · intro a b
      rw [Bool.or_eq_true, hle, hle]
      exact le_total _ _
  have hdistinct : (items.mergeSort le).Nodup := (List.mergeSort_perm items le).nodup_iff.mpr hn
  refine (hsorted.and hdistinct).imp ?_
  rintro a b ⟨hab, hne⟩
  exact lt_of_le_of_ne ((hle a b).mp hab) fun h => hne (hkey h)

/-- Strictly increasing lists with the same items are the same. -/
theorem eq_of_pairwise_lt {xs ys : List α} (hx : xs.Pairwise fun a b => key a < key b)
    (hy : ys.Pairwise fun a b => key a < key b) (h : ∀ a, a ∈ xs ↔ a ∈ ys) : xs = ys := by
  have hnodup : ∀ {zs : List α}, (zs.Pairwise fun a b => key a < key b) → zs.Nodup := by
    intro zs hzs
    refine hzs.imp ?_
    rintro a b hab rfl
    exact lt_irrefl _ hab
  have hperm := (List.perm_ext_iff_of_nodup (hnodup hx) (hnodup hy)).mpr h
  refine hperm.eq_of_pairwise ?_ hx hy
  intro a b _ _ hab hba
  exact absurd hba hab.asymm

end ByKey

section ByName

variable {α : Type} (name : α → String)

/-- The items in increasing order of their names, those of one name in their given order. -/
def sortByName (items : List α) : List α :=
  items.mergeSort fun a b => decide (name a ≤ name b)

theorem sortByName_perm (items : List α) : (sortByName name items).Perm items :=
  List.mergeSort_perm items _

theorem name_le_trans (a b c : α) (hab : decide (name a ≤ name b) = true)
    (hbc : decide (name b ≤ name c) = true) : decide (name a ≤ name c) = true := by
  simp only [decide_eq_true_eq] at *
  exact hab.trans hbc

theorem name_le_total (a b : α) : (decide (name a ≤ name b) || decide (name b ≤ name a)) = true := by
  simp only [Bool.or_eq_true, decide_eq_true_eq]
  exact le_total _ _

theorem pairwise_sortByName (items : List α) :
    (sortByName name items).Pairwise fun a b => name a ≤ name b := by
  have h := List.pairwise_mergeSort (name_le_trans name) (name_le_total name) items
  exact h.imp fun hab => of_decide_eq_true hab

theorem pairwise_sortStrings (xs : List String) : (sortStrings xs).Pairwise (· ≤ ·) :=
  pairwise_sortByName id xs

/-- Sorting keeps the order of the items of one name. -/
theorem filter_sortByName (items : List α) (s : String) :
    (sortByName name items).filter (fun a => name a = s) = items.filter fun a => name a = s := by
  have hsorted : (items.filter fun a => name a = s).Pairwise
      fun a b => decide (name a ≤ name b) = true := by
    apply List.pairwise_of_forall_mem_list
    intro a ha b hb
    simp only [List.mem_filter, decide_eq_true_eq] at ha hb ⊢
    rw [ha.2, hb.2]
  -- By stability the items of one name are a sublist of the sorted items; their number decides.
  have hsub : (items.filter fun a => name a = s).Sublist (sortByName name items) :=
    List.sublist_mergeSort (name_le_trans name) (name_le_total name) hsorted List.filter_sublist
  have hfilter := hsub.filter fun a => decide (name a = s)
  simp only [List.filter_filter, Bool.and_self] at hfilter
  have hlen := ((sortByName_perm name items).filter fun a => decide (name a = s)).length_eq
  exact (hfilter.eq_of_length hlen.symm).symm

theorem mem_iff_of_filter_eq {xs ys : List α}
    (h : ∀ s, xs.filter (fun a => name a = s) = ys.filter fun a => name a = s) (a : α) :
    a ∈ xs ↔ a ∈ ys := by
  have ha := congrArg (a ∈ ·) (h (name a))
  simpa using ha

/-- A sorted list is known from its items of each name. -/
theorem eq_of_filter_eq_of_sorted {xs ys : List α}
    (hx : xs.Pairwise fun a b => name a ≤ name b) (hy : ys.Pairwise fun a b => name a ≤ name b)
    (h : ∀ s, xs.filter (fun a => name a = s) = ys.filter fun a => name a = s) : xs = ys := by
  induction xs generalizing ys with
  | nil =>
    cases ys with
    | nil => rfl
    | cons b ys => simpa using mem_iff_of_filter_eq name h b
  | cons a xs ih =>
    cases ys with
    | nil => simpa using mem_iff_of_filter_eq name h a
    | cons b ys =>
      rw [List.pairwise_cons] at hx hy
      have hab : name a = name b := by
        apply le_antisymm
        · rcases List.mem_cons.mp ((mem_iff_of_filter_eq name h b).mpr (by simp)) with rfl | hb
          · exact le_rfl
          · exact hx.1 b hb
        · rcases List.mem_cons.mp ((mem_iff_of_filter_eq name h a).mp (by simp)) with rfl | ha
          · exact le_rfl
          · exact hy.1 a ha
      have hhead : a = b := by
        have hs := h (name b)
        rw [List.filter_cons_of_pos (by simpa using hab), List.filter_cons_of_pos (by simp)] at hs
        exact (List.cons.inj hs).1
      subst hhead
      congr 1
      apply ih hx.2 hy.2
      intro s
      have hs := h s
      by_cases ha : name a = s
      · rw [List.filter_cons_of_pos (by simpa using ha),
          List.filter_cons_of_pos (by simpa using ha)] at hs
        exact (List.cons.inj hs).2
      · rwa [List.filter_cons_of_neg (by simpa using ha),
          List.filter_cons_of_neg (by simpa using ha)] at hs

/-- Items of one name that also have another name are there only if both names are the same. -/
theorem filter_filter_name (items : List α) (n s : String) :
    (items.filter fun a => name a = n).filter (fun a => name a = s) =
      if n = s then items.filter fun a => name a = s else [] := by
  rw [List.filter_filter]
  split_ifs with h
  · simp only [h, Bool.and_self]
  · apply List.filter_eq_nil_iff.mpr
    intro a _ ha
    simp only [Bool.and_eq_true, decide_eq_true_eq] at ha
    exact h (ha.2.symm.trans ha.1)

/-- Going through distinct names and listing the items of each finds the items of every name. -/
theorem filter_flatMap_filter (items : List α) {names : List String} (hn : names.Nodup)
    (s : String) :
    (names.flatMap fun n => items.filter fun a => name a = n).filter (fun a => name a = s) =
      if s ∈ names then items.filter fun a => name a = s else [] := by
  rw [List.filter_flatMap]
  simp only [filter_filter_name]
  induction names with
  | nil => rfl
  | cons n names ih =>
    obtain ⟨hnot, hn⟩ := List.nodup_cons.mp hn
    rw [List.flatMap_cons, ih hn]
    by_cases hns : n = s
    · subst hns
      simp [hnot]
    · simp [hns, Ne.symm hns]

/-- Sorting items by name lists the items of each name, name by name. -/
theorem sortByName_eq_flatMap {items : List α} {names : List String} (hn : names.Nodup)
    (h : ∀ a ∈ items, name a ∈ names) :
    sortByName name items =
      (sortStrings names).flatMap fun n => items.filter fun a => name a = n := by
  apply eq_of_filter_eq_of_sorted name (pairwise_sortByName name items)
  · rw [List.pairwise_flatMap]
    constructor
    · intro n _
      apply List.pairwise_of_forall_mem_list
      intro a ha b hb
      simp only [List.mem_filter, decide_eq_true_eq] at ha hb
      rw [ha.2, hb.2]
    · apply (pairwise_sortStrings names).imp
      intro m n hmn a ha b hb
      simp only [List.mem_filter, decide_eq_true_eq] at ha hb
      rwa [ha.2, hb.2]
  · intro s
    rw [filter_sortByName, filter_flatMap_filter name items (nodup_sortStrings hn)]
    split_ifs with hs
    · rfl
    · apply List.filter_eq_nil_iff.mpr
      intro a ha hname
      exact hs ((sortStrings_perm names).mem_iff.mpr (of_decide_eq_true hname ▸ h a ha))

end ByName

/-- Sorting forgets the order of a list and nothing else. -/
theorem sortStrings_eq_iff {xs ys : List String} : sortStrings xs = sortStrings ys ↔ xs.Perm ys := by
  constructor
  · intro h
    exact (sortStrings_perm xs).symm.trans (h ▸ sortStrings_perm ys)
  · intro h
    have hperm := (sortStrings_perm xs).trans (h.trans (sortStrings_perm ys).symm)
    exact hperm.eq_of_pairwise (fun a b _ _ hab hba => le_antisymm hab hba)
      (pairwise_sortStrings xs) (pairwise_sortStrings ys)

end ServiceChains
