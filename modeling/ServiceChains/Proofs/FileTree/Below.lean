import Mathlib
import ServiceChains.Proofs.FileTree.Following
import ServiceChains.Proofs.FileTree.Name

/-!
# Files below a place

What stands below a place is listed in the order of locations, which is a total order. A tree that
lists every place once therefore has one list of files below each place: the list below an inner
place is a part of the list below an outer one, and taking files away takes them out of the list and
changes nothing else.
-/
namespace ServiceChains

namespace Location

theorem order_total (l m : Location) : (le l m || le m l) = true := by
  induction l generalizing m with
  | nil => simp [le]
  | cons a l ih =>
    cases m with
    | nil => simp [le]
    | cons b m =>
      by_cases hab : a = b
      · simpa [le, hab] using ih m
      · simpa [le, hab, Ne.symm hab] using List.le_total a.bytes b.bytes

theorem order_trans {l m n : Location} (hlm : le l m = true) (hmn : le m n = true) :
    le l n = true := by
  induction l generalizing m n with
  | nil => simp [le]
  | cons a l ih =>
    cases m with
    | nil => simp [le] at hlm
    | cons b m =>
      cases n with
      | nil => simp [le] at hmn
      | cons c n =>
        -- the first names at which the locations differ decide
        by_cases hab : a = b
        · subst hab
          by_cases hac : a = c
          · simp only [le, hac, ↓reduceIte] at hlm hmn ⊢
            exact ih hlm hmn
          · simpa [le, hac] using hmn
        · by_cases hbc : b = c
          · subst hbc
            simpa [le, hab] using hlm
          · simp only [le, hab, hbc, ↓reduceIte, decide_eq_true_eq] at hlm hmn
            have hac : a ≠ c := by
              rintro rfl
              exact hab (FileName.bytes_injective (List.le_antisymm hlm hmn))
            simpa [le, hac] using List.le_trans hlm hmn

theorem order_antisymm {l m : Location} (hlm : le l m = true) (hml : le m l = true) : l = m := by
  induction l generalizing m with
  | nil =>
    cases m with
    | nil => rfl
    | cons b m => simp [le] at hml
  | cons a l ih =>
    cases m with
    | nil => simp [le] at hlm
    | cons b m =>
      by_cases hab : a = b
      · simp only [le, hab, ↓reduceIte] at hlm hml
        rw [hab, ih hlm hml]
      · simp only [le, if_neg hab, if_neg (Ne.symm hab), decide_eq_true_eq] at hlm hml
        exact absurd (FileName.bytes_injective (List.le_antisymm hlm hml)) hab

/-- The way to a common directory does not matter for the order. -/
theorem le_append (place l m : Location) : le (place ++ l) (place ++ m) = le l m := by
  induction place with
  | nil => rfl
  | cons a place ih => simpa [le] using ih

/-- Locations in order that differ are strictly increasing, their names compared bytewise. -/
theorem map_bytes_lt {l m : Location} (h : le l m = true) (hne : l ≠ m) :
    l.map FileName.bytes < m.map FileName.bytes := by
  induction l generalizing m with
  | nil =>
    cases m with
    | nil => exact absurd rfl hne
    | cons b m => exact List.nil_lt_cons ..
  | cons a l ih =>
    cases m with
    | nil => simp [le] at h
    | cons b m =>
      rw [List.map_cons, List.map_cons, List.cons_lt_cons_iff]
      by_cases hab : a = b
      · subst hab
        simp only [le, ↓reduceIte] at h
        exact .inr ⟨rfl, ih h fun hsame => hne (by rw [hsame])⟩
      · simp only [le, hab, ↓reduceIte, decide_eq_true_eq] at h
        exact .inl (Std.lt_of_le_of_ne h fun hsame => hab (FileName.bytes_injective hsame))

/-- Does a location lie inside a place? -/
def isBelow (place l : Location) : Bool :=
  place.isPrefixOf l && decide (place.length < l.length)

theorem isBelow_iff {place l : Location} : isBelow place l = true ↔ ∃ r, r ≠ [] ∧ l = place ++ r := by
  rw [isBelow, Bool.and_eq_true, List.isPrefixOf_iff_prefix, decide_eq_true_eq]
  constructor
  · rintro ⟨⟨r, rfl⟩, hlength⟩
    refine ⟨r, ?_, rfl⟩
    rintro rfl
    simp at hlength
  · rintro ⟨r, hr, rfl⟩
    have hpos := List.length_pos_iff.mpr hr
    exact ⟨List.prefix_append .., by simpa using hpos⟩

end Location

/-- The content of a file. -/
def FileNode.content? : FileNode → Option ByteArray
  | file content => some content
  | _ => none

namespace FileTree

open Location

variable {t : FileTree}

theorem mem_below {place r : Location} {node : FileNode} :
    (r, node) ∈ t.below place ↔ r ≠ [] ∧ (place ++ r, node) ∈ t.entries := by
  rw [below, (List.mergeSort_perm _ _).mem_iff, List.mem_filterMap]
  constructor
  · rintro ⟨⟨l, other⟩, hmem, hsome⟩
    dsimp only at hsome
    split_ifs at hsome with hbelow
    obtain ⟨r', hr', rfl⟩ := isBelow_iff.mp hbelow
    obtain ⟨rfl, rfl⟩ : r' = r ∧ other = node := by simpa using hsome
    exact ⟨hr', hmem⟩
  · rintro ⟨hr, hmem⟩
    refine ⟨(place ++ r, node), hmem, ?_⟩
    have hbelow : isBelow place (place ++ r) = true := isBelow_iff.mpr ⟨r, hr, rfl⟩
    rw [isBelow] at hbelow
    dsimp only
    rw [if_pos hbelow, List.drop_left]

/-- The files below a place, each at its own location, in order. -/
def filesBelow (t : FileTree) (place : Location) : List (Location × ByteArray) :=
  (t.below place).filterMap fun entry => entry.2.content?.map (place ++ entry.1, ·)

theorem mem_filesBelow {place l : Location} {content : ByteArray} :
    (l, content) ∈ t.filesBelow place ↔
      (l, FileNode.file content) ∈ t.entries ∧ isBelow place l = true := by
  rw [filesBelow, List.mem_filterMap]
  constructor
  · rintro ⟨⟨r, node⟩, hmem, hsome⟩
    obtain ⟨other, hcontent, hpair⟩ := Option.map_eq_some_iff.mp hsome
    obtain ⟨rfl, rfl⟩ := Prod.ext_iff.mp hpair
    obtain ⟨hr, hentry⟩ := mem_below.mp hmem
    cases node with
    | directory => simp [FileNode.content?] at hcontent
    | link target => simp [FileNode.content?] at hcontent
    | file found =>
      obtain rfl : found = other := by simpa [FileNode.content?] using hcontent
      exact ⟨hentry, isBelow_iff.mpr ⟨r, hr, rfl⟩⟩
  · rintro ⟨hentry, hbelow⟩
    obtain ⟨r, hr, rfl⟩ := isBelow_iff.mp hbelow
    exact ⟨(r, .file content), mem_below.mpr ⟨hr, hentry⟩, rfl⟩

theorem pairwise_filesBelow (t : FileTree) (place : Location) :
    (t.filesBelow place).Pairwise fun f g => Location.le f.1 g.1 = true := by
  have hsorted : (t.below place).Pairwise fun a b => Location.le a.1 b.1 = true := by
    apply List.pairwise_mergeSort
    · intro a b c hab hbc
      exact order_trans hab hbc
    · intro a b
      exact order_total a.1 b.1
  refine List.Pairwise.filterMap _ ?_ hsorted
  intro a b hab f hf g hg
  obtain ⟨c, -, rfl⟩ := Option.map_eq_some_iff.mp hf
  obtain ⟨d, -, rfl⟩ := Option.map_eq_some_iff.mp hg
  rwa [le_append]

/-- No place is listed twice. -/
def ListsOnce (t : FileTree) : Prop :=
  (t.entries.map Prod.fst).Nodup

instance (t : FileTree) : Decidable t.ListsOnce :=
  inferInstanceAs (Decidable (List.Nodup _))

namespace ListsOnce

theorem node_unique (h : t.ListsOnce) {l : Location} {node other : FileNode}
    (hnode : (l, node) ∈ t.entries) (hother : (l, other) ∈ t.entries) : node = other := by
  have hsame := List.inj_on_of_nodup_map h hnode hother rfl
  exact (Prod.ext_iff.mp hsame).2

theorem node?_eq_some_iff (h : t.ListsOnce) {l : Location} {node : FileNode} (hl : l ≠ []) :
    t.node? l = some node ↔ (l, node) ∈ t.entries := by
  rw [node?, if_neg (by simpa using hl)]
  constructor
  · intro hlookup
    obtain ⟨before, after, heq, -⟩ := List.lookup_eq_some_iff.mp hlookup
    rw [heq]
    simp
  · intro hmem
    cases hlookup : t.entries.lookup l with
    | none =>
      have hnone := List.lookup_eq_none_iff.mp hlookup _ hmem
      simp at hnone
    | some other =>
      obtain ⟨before, after, heq, -⟩ := List.lookup_eq_some_iff.mp hlookup
      have hother : (l, other) ∈ t.entries := by
        rw [heq]
        simp
      rw [h.node_unique hmem hother]

theorem nodup_filesBelow (h : t.ListsOnce) (place : Location) : (t.filesBelow place).Nodup := by
  have hinside : (t.below place).Nodup := by
    rw [below, (List.mergeSort_perm _ _).nodup_iff]
    refine List.Nodup.filterMap ?_ h.of_map
    rintro ⟨l, node⟩ ⟨m, other⟩ e hl hm
    dsimp only at hl hm
    rw [Option.mem_def] at hl hm
    split_ifs at hl hm with hbelow hbelow'
    obtain ⟨r, -, rfl⟩ := isBelow_iff.mp hbelow
    obtain ⟨r', -, rfl⟩ := isBelow_iff.mp hbelow'
    rw [List.drop_left, Option.some_inj] at hl hm
    obtain ⟨rfl, rfl⟩ := Prod.ext_iff.mp (hl.trans hm.symm)
    rfl
  refine hinside.filterMap ?_
  rintro ⟨l, node⟩ ⟨m, other⟩ e hl hm
  rw [Option.mem_def, Option.map_eq_some_iff] at hl hm
  obtain ⟨content, hnode, rfl⟩ := hl
  obtain ⟨content', hother, hsame⟩ := hm
  cases node <;> cases other <;> simp_all [FileNode.content?]

/-- Lists of files in order are the same if they have the same files. -/
theorem eq_filesBelow (h : t.ListsOnce) {place : Location} {files : List (Location × ByteArray)}
    (hsorted : files.Pairwise fun f g => Location.le f.1 g.1 = true) (hnodup : files.Nodup)
    (hmem : ∀ f, f ∈ files ↔ f ∈ t.filesBelow place) : files = t.filesBelow place := by
  have hperm : files.Perm (t.filesBelow place) :=
    (List.perm_ext_iff_of_nodup hnodup (h.nodup_filesBelow place)).mpr hmem
  refine hperm.eq_of_pairwise ?_ hsorted (pairwise_filesBelow t place)
  rintro ⟨l, content⟩ ⟨m, other⟩ hf hg hlm hml
  obtain rfl : l = m := order_antisymm hlm hml
  have hfile := (mem_filesBelow.mp ((hmem _).mp hf)).1
  have hfile' := (mem_filesBelow.mp hg).1
  have hsame := h.node_unique hfile hfile'
  rw [FileNode.file.inj hsame]

/-- The files below an inner place are those of the files below an outer one that lie inside. -/
theorem filesBelow_append (h : t.ListsOnce) (place inner : Location) :
    t.filesBelow (place ++ inner) =
      (t.filesBelow place).filter fun f => isBelow (place ++ inner) f.1 := by
  refine (h.eq_filesBelow ((pairwise_filesBelow t place).filter _)
    ((h.nodup_filesBelow place).filter _) ?_).symm
  rintro ⟨l, content⟩
  rw [List.mem_filter, mem_filesBelow, mem_filesBelow]
  constructor
  · rintro ⟨⟨hentry, -⟩, hinside⟩
    exact ⟨hentry, hinside⟩
  · rintro ⟨hentry, hinside⟩
    obtain ⟨r, hr, rfl⟩ := isBelow_iff.mp hinside
    refine ⟨⟨hentry, isBelow_iff.mpr ⟨inner ++ r, ?_, List.append_assoc ..⟩⟩, hinside⟩
    simp [hr]

end ListsOnce

end FileTree

end ServiceChains
