import Mathlib
import ServiceChains.Table

/-!
# Tallies

A tally lists the distinct items of a list in the order in which they first occur, each with the
number of its occurrences as a 64-bit word. As long as the list has fewer items than there are words,
the counts add up to its length: no item is lost and none is counted twice. Items that are told apart
by a key only are represented by the first item of each key.
-/
namespace ServiceChains

section FirstOccurrences

variable {α : Type} [BEq α] [LawfulBEq α]

/-- Only an item that has not occurred yet is added to the first occurrences. -/
theorem eraseDups_concat (xs : List α) (x : α) :
    (xs ++ [x]).eraseDups = if x ∈ xs then xs.eraseDups else xs.eraseDups ++ [x] := by
  rw [List.eraseDups_append]
  by_cases h : x ∈ xs
  · simp [List.removeAll, h]
  · simp [List.removeAll, h, List.eraseDups_cons]

theorem nodup_eraseDups (xs : List α) : xs.eraseDups.Nodup := by
  induction xs using List.reverseRecOn with
  | nil => simp
  | append_singleton xs x ih =>
    rw [eraseDups_concat]
    split_ifs with h
    · exact ih
    · have hx : x ∉ xs.eraseDups := by rwa [List.mem_eraseDups]
      exact List.nodup_append.mpr ⟨ih, by simp, by
        rintro y hy z hz rfl
        rw [List.mem_singleton.mp hz] at hy
        exact hx hy⟩

theorem length_eraseDups_le (xs : List α) : xs.eraseDups.length ≤ xs.length := by
  have hsub := List.subperm_of_subset (nodup_eraseDups xs) fun x hx => List.mem_eraseDups.mp hx
  exact hsub.length_le

/-- A list in another order has the same first occurrences, in some order. -/
theorem perm_eraseDups {xs ys : List α} (h : xs.Perm ys) : xs.eraseDups.Perm ys.eraseDups := by
  apply (List.perm_ext_iff_of_nodup (nodup_eraseDups xs) (nodup_eraseDups ys)).mpr
  intro x
  rw [List.mem_eraseDups, List.mem_eraseDups, h.mem_iff]

theorem filter_eraseDups (p : α → Bool) (xs : List α) :
    xs.eraseDups.filter p = (xs.filter p).eraseDups := by
  induction xs using List.reverseRecOn with
  | nil => rfl
  | append_singleton xs x ih =>
    rw [eraseDups_concat, List.filter_append]
    by_cases hp : p x = true
    · rw [List.filter_cons_of_pos hp, List.filter_nil, eraseDups_concat, ← ih]
      by_cases hx : x ∈ xs
      · simp [hx, hp]
      · simp [hx, hp]
    · rw [List.filter_cons_of_neg hp, List.filter_nil, List.append_nil, ← ih]
      split_ifs
      · rfl
      · simp [hp]

/-- First occurrences stand in the order of the places at which they occur first. -/
theorem pairwise_idxOf_eraseDups (xs : List α) :
    xs.eraseDups.Pairwise fun x y => xs.idxOf x < xs.idxOf y := by
  induction xs using List.reverseRecOn with
  | nil => simp
  | append_singleton xs x ih =>
    have hkeep : xs.eraseDups.Pairwise fun y z => (xs ++ [x]).idxOf y < (xs ++ [x]).idxOf z := by
      refine ih.imp_of_mem ?_
      intro y z hy hz hlt
      rwa [List.idxOf_append_of_mem (List.mem_eraseDups.mp hy),
        List.idxOf_append_of_mem (List.mem_eraseDups.mp hz)]
    rw [eraseDups_concat]
    split_ifs with hx
    · exact hkeep
    · refine List.pairwise_append.mpr ⟨hkeep, List.pairwise_singleton .., ?_⟩
      intro y hy z hz
      rw [List.mem_singleton.mp hz, List.idxOf_append_of_mem (List.mem_eraseDups.mp hy),
        List.idxOf_append_of_notMem hx]
      have hlt := List.idxOf_lt_length_of_mem (List.mem_eraseDups.mp hy)
      omega

end FirstOccurrences

section Entries

variable {ι κ β : Type} [DecidableEq κ] {items : List ι} {key : ι → κ} {value : ι → β} {k : κ}

/-- Changing the value of a key that is there changes that value only. -/
theorem upsert_map_of_mem (hn : (items.map key).Nodup) (h : k ∈ items.map key) (first : β)
    (change : β → β) :
    upsert k first change (items.map fun i => (key i, value i)) =
      items.map fun i => (key i, if key i = k then change (value i) else value i) := by
  induction items with
  | nil => cases h
  | cons i items ih =>
    rw [List.map_cons, List.nodup_cons] at hn
    by_cases hi : key i = k
    · have hrest : items.map (fun j => (key j, if key j = k then change (value j) else value j)) =
          items.map fun j => (key j, value j) := by
        apply List.map_congr_left
        intro j hj
        have hne : key j ≠ k := fun he => hn.1 (hi ▸ he ▸ List.mem_map_of_mem hj)
        rw [if_neg hne]
      simp only [List.map_cons, upsert, if_pos hi, hrest]
    · have hk : k ∈ items.map key := by
        rw [List.map_cons, List.mem_cons] at h
        exact h.resolve_left (Ne.symm hi)
      simp only [List.map_cons, upsert, if_neg hi, ih hn.2 hk]

/-- A key that is not there yet stands behind the others. -/
theorem upsert_map_of_not_mem (h : k ∉ items.map key) (first : β) (change : β → β) :
    upsert k first change (items.map fun i => (key i, value i)) =
      (items.map fun i => (key i, value i)) ++ [(k, first)] := by
  induction items with
  | nil => rfl
  | cons i items ih =>
    rw [List.map_cons, List.mem_cons, not_or] at h
    simp only [List.map_cons, upsert, if_neg (Ne.symm h.1), ih h.2, List.cons_append]

end Entries

variable {α : Type} [DecidableEq α]

/-- Items that are inserted one after the other, some of them passed over, make up the first
occurrences of those that are not. -/
theorem foldl_insertNew_eq [BEq α] [LawfulBEq α] (skip : α → Prop) [DecidablePred skip]
    (xs : List α) :
    xs.foldl (fun found x => if skip x then found else insertNew x found) [] =
      (xs.filter fun x => ¬ skip x).eraseDups := by
  induction xs using List.reverseRecOn with
  | nil => rfl
  | append_singleton xs x ih =>
    rw [List.foldl_append, ih, List.foldl_cons, List.foldl_nil, List.filter_append]
    by_cases hx : skip x
    · simp [hx]
    · have hfilter : [x].filter (fun x => ¬ skip x) = [x] := by simp [hx]
      rw [if_neg hx, hfilter, eraseDups_concat, insertNew]
      simp only [List.mem_eraseDups]

theorem tally_concat (xs : List α) (x : α) : tally (xs ++ [x]) = bump x 1 (tally xs) := by
  simp only [tally, List.foldl_append, List.foldl_cons, List.foldl_nil]

/-- A tally holds the first occurrences, each with its number of occurrences. -/
theorem tally_eq [BEq α] [LawfulBEq α] (xs : List α) :
    tally xs = xs.eraseDups.map fun x => (x, UInt64.ofNat (xs.count x)) := by
  induction xs using List.reverseRecOn with
  | nil => rfl
  | append_singleton xs x ih =>
    rw [tally_concat, ih, eraseDups_concat, bump]
    split_ifs with h
    · rw [upsert_map_of_mem (by simpa using nodup_eraseDups xs) (by simpa using h)]
      apply List.map_congr_left
      intro y _
      by_cases hyx : y = x
      · simp [hyx, List.count_append, UInt64.ofNat_add]
      · simp [hyx, Ne.symm hyx, List.count_append]
    · rw [upsert_map_of_not_mem (by simpa using h), List.map_append]
      congr 1
      · apply List.map_congr_left
        intro y hy
        have hyx : x ≠ y := fun he => h (he ▸ List.mem_eraseDups.mp hy)
        simp [List.count_append, hyx]
      · simp [List.count_append, List.count_eq_zero_of_not_mem h]

theorem mem_tally_iff {xs : List α} {e : α × UInt64} :
    e ∈ tally xs ↔ e.1 ∈ xs ∧ e.2 = UInt64.ofNat (xs.countP fun x => x = e.1) := by
  rw [tally_eq, List.mem_map]
  simp only [List.mem_eraseDups, List.count_eq_countP]
  constructor
  · rintro ⟨x, hx, rfl⟩
    exact ⟨hx, rfl⟩
  · rintro ⟨hx, hcount⟩
    exact ⟨e.1, hx, Prod.ext rfl hcount.symm⟩

theorem perm_tally {xs ys : List α} (h : xs.Perm ys) : (tally xs).Perm (tally ys) := by
  have hcount : ∀ x, xs.count x = ys.count x := h.count_eq
  simp only [tally_eq, hcount]
  exact (perm_eraseDups h).map _

theorem sum_count_eraseDups (xs : List α) : (xs.eraseDups.map xs.count).sum = xs.length := by
  have hperm : xs.eraseDups.Perm xs.dedup := by
    apply (List.perm_ext_iff_of_nodup (nodup_eraseDups xs) (List.nodup_dedup xs)).mpr
    intro x
    rw [List.mem_eraseDups, List.mem_dedup]
  rw [(hperm.map xs.count).sum_eq]
  exact List.sum_map_count_dedup_eq_length xs

/-- A number of occurrences is a word wherever the length of the list is one. -/
theorem toNat_ofNat_count {xs : List α} (h : xs.length < UInt64.size) (x : α) :
    (UInt64.ofNat (xs.count x)).toNat = xs.count x :=
  UInt64.toNat_ofNat_of_lt' (Nat.lt_of_le_of_lt List.count_le_length h)

/-- The counts of a tally add up to the length of the list. -/
theorem sum_tally {xs : List α} (h : xs.length < UInt64.size) :
    ((tally xs).map fun e => e.2.toNat).sum = xs.length := by
  rw [tally_eq, List.map_map, ← sum_count_eraseDups xs]
  congr 1
  apply List.map_congr_left
  intro x _
  exact toNat_ofNat_count h x

/-- What is counted was added. -/
theorem exists_of_mem_foldl_bump {added : List (α × UInt64)} {e : α × UInt64}
    (h : e ∈ added.foldl (fun counts d => bump d.1 d.2 counts) []) : ∃ d ∈ added, d.1 = e.1 := by
  induction added using List.reverseRecOn generalizing e with
  | nil => cases h
  | append_singleton added d ih =>
    rw [List.foldl_append, List.foldl_cons, List.foldl_nil] at h
    rcases mem_of_mem_upsert h with hd | ⟨e', he', hkey⟩
    · exact ⟨d, by simp, hd.symm⟩
    · obtain ⟨d', hd', heq⟩ := ih he'
      exact ⟨d', by simp [hd'], heq.trans hkey⟩

section Sums

variable [BEq α] [LawfulBEq α]

theorem lookup_cons_eq_ite (x y : α) (n : UInt64) (counts : List (α × UInt64)) :
    List.lookup y ((x, n) :: counts) = if x = y then some n else counts.lookup y := by
  split_ifs with h
  · rw [h, List.lookup_cons_self]
  · rw [List.lookup_cons, beq_eq_false_iff_ne.mpr (Ne.symm h)]

/-- Adding to the count of an item changes that count only. -/
theorem getD_lookup_bump (x y : α) (k : UInt64) (counts : List (α × UInt64)) :
    ((bump x k counts).lookup y).getD 0 =
      (counts.lookup y).getD 0 + if x = y then k else 0 := by
  unfold bump
  induction counts with
  | nil =>
    rw [upsert, lookup_cons_eq_ite]
    split_ifs <;> simp
  | cons e counts ih =>
    obtain ⟨z, n⟩ := e
    by_cases hzx : z = x
    · rw [upsert, if_pos hzx, lookup_cons_eq_ite, lookup_cons_eq_ite, hzx]
      split_ifs <;> simp
    · rw [upsert, if_neg hzx, lookup_cons_eq_ite, lookup_cons_eq_ite]
      by_cases hzy : z = y
      · have hxy : x ≠ y := fun h => hzx (hzy.trans h.symm)
        simp [hzy, hxy]
      · simpa only [hzy, if_false] using ih

/-- What is counted for an item is the sum of what was added to it, as a word. -/
theorem getD_lookup_foldl_bump (added : List (α × UInt64)) (x : α) :
    ((added.foldl (fun counts d => bump d.1 d.2 counts) []).lookup x).getD 0 =
      UInt64.ofNat ((added.filter fun d => d.1 = x).map fun d => d.2.toNat).sum := by
  induction added using List.reverseRecOn with
  | nil => rfl
  | append_singleton added d ih =>
    rw [List.foldl_append, List.foldl_cons, List.foldl_nil, getD_lookup_bump, ih,
      List.filter_append, List.map_append, List.sum_append, UInt64.ofNat_add]
    congr 1
    by_cases hd : d.1 = x <;> simp [hd]

end Sums

theorem bump?_eq_some_iff {x : α} {k : UInt64} {counts counts' : List (α × UInt64)} :
    bump? x k counts = some counts' ↔
      ((counts.lookup x).getD 0).toNat + k.toNat < UInt64.size ∧ bump x k counts = counts' := by
  rw [bump?, Option.ite_none_right_eq_some, Option.some_inj]

/-- Checking each addition is the same as checking the sums: counting comes to an end exactly if what
is added to each item fits into a word, and then nothing was cut off. -/
theorem foldlM_bump?_eq_some_iff (added counts : List (α × UInt64)) :
    added.foldlM (fun counts d => bump? d.1 d.2 counts) [] = some counts ↔
      (∀ x, ((added.filter fun d => d.1 = x).map fun d => d.2.toNat).sum < UInt64.size) ∧
        added.foldl (fun counts d => bump d.1 d.2 counts) [] = counts := by
  induction added using List.reverseRecOn generalizing counts with
  | nil => simp
  | append_singleton added d ih =>
    have hsum (x : α) : (((added ++ [d]).filter fun e => e.1 = x).map fun e => e.2.toNat).sum =
        ((added.filter fun e => e.1 = x).map fun e => e.2.toNat).sum +
          if d.1 = x then d.2.toNat else 0 := by
      by_cases hd : d.1 = x <;> simp [hd]
    simp only [hsum, List.foldlM_append, List.foldlM_cons, List.foldlM_nil, List.foldl_append,
      List.foldl_cons, List.foldl_nil, bind_pure, Option.bind_eq_bind, Option.bind_eq_some_iff, ih,
      bump?_eq_some_iff]
    constructor
    · rintro ⟨_, ⟨hfits, rfl⟩, hlast, rfl⟩
      rw [getD_lookup_foldl_bump, UInt64.toNat_ofNat_of_lt' (hfits d.1)] at hlast
      refine ⟨fun x => ?_, rfl⟩
      split_ifs with hx
      · rwa [← hx]
      · exact hfits x
    · rintro ⟨hfits, rfl⟩
      have hbefore : ∀ x, ((added.filter fun e => e.1 = x).map fun e => e.2.toNat).sum <
          UInt64.size := fun x => Nat.lt_of_le_of_lt (Nat.le_add_right ..) (hfits x)
      refine ⟨_, ⟨hbefore, rfl⟩, ?_, rfl⟩
      rw [getD_lookup_foldl_bump, UInt64.toNat_ofNat_of_lt' (hbefore d.1)]
      simpa using hfits d.1

section Firsts

variable {ι : Type} (key : ι → α)

/-- The items whose key no earlier item has. -/
def firstsBy : List ι → List ι
  | [] => []
  | x :: xs => x :: (firstsBy xs).filter fun y => key y ≠ key x

theorem firstsBy_sublist (xs : List ι) : (firstsBy key xs).Sublist xs := by
  induction xs with
  | nil => exact List.Sublist.slnil
  | cons x xs ih => exact (List.filter_sublist.trans ih).cons_cons x

theorem firstsBy_concat (xs : List ι) (x : ι) :
    firstsBy key (xs ++ [x]) =
      if key x ∈ xs.map key then firstsBy key xs else firstsBy key xs ++ [x] := by
  induction xs with
  | nil => rfl
  | cons y xs ih =>
    rw [List.cons_append, firstsBy, ih, firstsBy]
    by_cases hxy : key x = key y
    · by_cases hx : key y ∈ xs.map key
      · simp only [hxy, if_pos hx, List.map_cons, List.mem_cons, true_or, if_true]
      · simp [hxy, hx, List.filter_append]
    · by_cases hx : key x ∈ xs.map key
      · simp only [List.map_cons, List.mem_cons, hx, or_true, if_true]
      · simp [hxy, hx, List.filter_append]

/-- The keys of the first items are the first occurrences of the keys. -/
theorem map_firstsBy (xs : List ι) : (firstsBy key xs).map key = (xs.map key).eraseDups := by
  induction xs using List.reverseRecOn with
  | nil => rfl
  | append_singleton xs x ih =>
    rw [firstsBy_concat, List.map_append, List.map_singleton, eraseDups_concat, ← ih]
    split_ifs with h
    · rfl
    · rw [List.map_append, List.map_singleton]

/-- No item before a first item has its key. -/
theorem find?_of_mem_firstsBy {xs : List ι} {x : ι} (h : x ∈ firstsBy key xs) :
    xs.find? (fun y => key y = key x) = some x := by
  induction xs with
  | nil => cases h
  | cons y xs ih =>
    rw [firstsBy, List.mem_cons, List.mem_filter] at h
    rcases h with rfl | ⟨hx, hne⟩
    · simp
    · rw [List.find?_cons_of_neg]
      · exact ih hx
      · simpa using Ne.symm (of_decide_eq_true hne)

end Firsts

end ServiceChains
