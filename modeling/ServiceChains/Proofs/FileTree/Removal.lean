import Mathlib
import ServiceChains.Proofs.FileTree.Below

/-!
# Trees without some of their files

Taking files out of a tree leaves everything else where it was: paths lead where they led, unless
they led to one of these files, and the other files are listed in the same order.
-/
namespace ServiceChains.FileTree

open Location

variable {t : FileTree} {gone : Location × ByteArray → Bool}

theorem bytes?_eq_some_iff {path : String} {content : ByteArray} :
    t.bytes? path = some content ↔
      ∃ l, t.locate true path = .ok l ∧ t.node? l = some (.file content) := by
  unfold bytes? find?
  constructor
  · intro h
    split at h
    · next hfound =>
      split at hfound
      · next l hlocated =>
        cases h
        exact ⟨l, hlocated, hfound⟩
      · cases hfound
    · cases h
  · rintro ⟨l, hlocated, hnode⟩
    simp only [hlocated, hnode]

/-- The tree without the files of which `gone` says so. -/
def withoutFiles (t : FileTree) (gone : Location × ByteArray → Bool) : FileTree :=
  { t with entries := t.entries.filter fun entry =>
      !(entry.2.content?.any fun content => gone (entry.1, content)) }

/-- What is not a file, or not one of those to be taken out, is kept. -/
def IsKept (gone : Location × ByteArray → Bool) (l : Location) (node : FileNode) : Prop :=
  ∀ content, node = .file content → gone (l, content) = false

theorem mem_withoutFiles {l : Location} {node : FileNode} :
    (l, node) ∈ (t.withoutFiles gone).entries ↔ (l, node) ∈ t.entries ∧ IsKept gone l node := by
  rw [withoutFiles, List.mem_filter, IsKept]
  cases node <;> simp [FileNode.content?]

namespace ListsOnce

theorem withoutFiles (h : t.ListsOnce) (gone : Location × ByteArray → Bool) :
    (t.withoutFiles gone).ListsOnce :=
  List.Nodup.sublist (List.filter_sublist.map _) h

theorem node?_withoutFiles (h : t.ListsOnce) {l : Location} {node : FileNode} :
    (t.withoutFiles gone).node? l = some node ↔ t.node? l = some node ∧ IsKept gone l node := by
  by_cases hl : l = []
  · subst hl
    rw [node?_nil, node?_nil]
    constructor
    · intro hnode
      cases hnode
      exact ⟨rfl, by simp [IsKept]⟩
    · exact And.left
  · rw [(h.withoutFiles gone).node?_eq_some_iff hl, h.node?_eq_some_iff hl, mem_withoutFiles]

theorem retains_withoutFiles (h : t.ListsOnce) : t.Retains (t.withoutFiles gone) where
  workingDirectory := rfl
  directory _ hplace := h.node?_withoutFiles.mpr ⟨hplace, by simp [IsKept]⟩
  link _ _ hlink := h.node?_withoutFiles.mpr ⟨hlink, by simp [IsKept]⟩
  file place content hfile := by
    cases hnode : (t.withoutFiles gone).node? place with
    | none => exact .inl rfl
    | some node =>
      have hsame := (h.node?_withoutFiles.mp hnode).1
      rw [hfile] at hsame
      exact .inr ⟨content, hsame.symm⟩

theorem withoutFiles_retains (h : t.ListsOnce) : (t.withoutFiles gone).Retains t where
  workingDirectory := rfl
  directory _ hplace := (h.node?_withoutFiles.mp hplace).1
  link _ _ hlink := (h.node?_withoutFiles.mp hlink).1
  file _ content hfile := .inr ⟨content, (h.node?_withoutFiles.mp hfile).1⟩

/-- The other files below a place stay in their order. -/
theorem filesBelow_withoutFiles (h : t.ListsOnce) (place : Location) :
    (t.withoutFiles gone).filesBelow place = (t.filesBelow place).filter fun f => !gone f := by
  refine ((h.withoutFiles gone).eq_filesBelow ((pairwise_filesBelow t place).filter _)
    ((h.nodup_filesBelow place).filter _) ?_).symm
  rintro ⟨l, content⟩
  rw [List.mem_filter, mem_filesBelow, mem_filesBelow, mem_withoutFiles]
  simp only [IsKept, FileNode.file.injEq, forall_eq', Bool.not_eq_true']
  tauto

end ListsOnce

end ServiceChains.FileTree
