import Mathlib
import ServiceChains.FileTree.Change

/-!
# Where paths lead

A path that leads to something leads to the same place in any tree that has the same directories and
links on the way; what became of the files does not matter. Without links the steps of a path can be
taken in two parts, and steps that name something lead down by their names.
-/
namespace ServiceChains.FileTree

variable {t t' : FileTree}

@[simp] theorem node?_nil (t : FileTree) : t.node? [] = some .directory := rfl

section Steps

variable {last : Bool} {links : Nat} {place : Location} {rest : List String} {step : String}

/-- A step that names something in a directory. -/
structure IsDownward (step : String) : Prop where
  not_here : step ≠ "."
  not_up : step ≠ ".."
  short : ¬ step.utf8ByteSize > nameLimit

@[simp] theorem follow_nil (t : FileTree) (last : Bool) (links : Nat) (place : Location) :
    t.follow last links place [] = .ok place := by
  rw [follow]

theorem follow_here (hplace : t.node? place = some .directory) :
    t.follow last links place ("." :: rest) = t.follow last links place rest := by
  rw [follow, hplace]
  rfl

theorem follow_up (hplace : t.node? place = some .directory) :
    t.follow last links place (".." :: rest) = t.follow last links place.dropLast rest := by
  rw [follow, hplace]
  rfl

/-- Where nothing stands the path has to end. -/
theorem follow_free (hplace : t.node? place = some .directory) (hstep : IsDownward step)
    (hfree : t.node? (place ++ [FileName.text step]) = none) :
    t.follow last links place (step :: rest) =
      if rest.isEmpty then .ok (place ++ [FileName.text step]) else .error .missing := by
  rw [follow, hplace]
  simp only [if_neg hstep.not_here, if_neg hstep.not_up, if_neg hstep.short, hfree]

theorem follow_link (hplace : t.node? place = some .directory) (hstep : IsDownward step)
    {target : String} (hlink : t.node? (place ++ [FileName.text step]) = some (.link target))
    (links : Nat) (hfollowed : ¬ (rest.isEmpty && !last) = true) :
    t.follow last (links + 1) place (step :: rest) =
      t.follow last links (if Path.isAbsolute target then [] else place)
        (Path.steps target ++ rest) := by
  rw [follow, hplace]
  simp only [if_neg hstep.not_here, if_neg hstep.not_up, if_neg hstep.short, hlink,
    if_neg hfollowed]

theorem follow_last_link (hplace : t.node? place = some .directory) (hstep : IsDownward step)
    {target : String} (hlink : t.node? (place ++ [FileName.text step]) = some (.link target))
    (hlast : (rest.isEmpty && !last) = true) :
    t.follow last links place (step :: rest) = .ok (place ++ [FileName.text step]) := by
  rw [follow, hplace]
  simp only [if_neg hstep.not_here, if_neg hstep.not_up, if_neg hstep.short, hlink, if_pos hlast]

theorem follow_down (hplace : t.node? place = some .directory) (hstep : IsDownward step)
    {node : FileNode} (hnode : t.node? (place ++ [FileName.text step]) = some node)
    (hlink : ∀ target, node ≠ .link target) :
    t.follow last links place (step :: rest) =
      t.follow last links (place ++ [FileName.text step]) rest := by
  rw [follow, hplace]
  simp only [if_neg hstep.not_here, if_neg hstep.not_up, if_neg hstep.short, hnode]

/-- Nothing is below a file. -/
theorem follow_file {content : ByteArray} (hplace : t.node? place = some (.file content)) :
    t.follow last links place (step :: rest) = .error .notDirectory := by
  rw [follow, hplace]

end Steps

/-- The tree `t'` has the directories and links of `t`, and neither where `t` has a file. -/
structure Retains (t t' : FileTree) : Prop where
  workingDirectory : t'.workingDirectory = t.workingDirectory
  directory : ∀ place, t.node? place = some .directory → t'.node? place = some .directory
  link : ∀ place target, t.node? place = some (.link target) →
    t'.node? place = some (.link target)
  file : ∀ place content, t.node? place = some (.file content) →
    t'.node? place = none ∨ ∃ other, t'.node? place = some (.file other)

namespace Retains

theorem follow_eq (h : t.Retains t') {last : Bool} {links : Nat} {place target : Location}
    {steps : List String} (hfollow : t.follow last links place steps = .ok target)
    (hthere : t.node? target ≠ none) : t'.follow last links place steps = .ok target := by
  fun_induction t.follow last links place steps with
  | case1 links place =>
    rw [follow_nil]
    exact hfollow
  | case2 => cases hfollow
  | case3 links place rest hplace ih =>
    rw [follow_here (h.directory _ hplace)]
    exact ih hfollow
  | case4 links place rest hplace _ ih =>
    rw [follow_up (h.directory _ hplace)]
    exact ih hfollow
  | case5 => cases hfollow
  | case6 links place step rest hplace _ _ _ hfree _ =>
    -- The path may end where nothing stands, but this one leads to something.
    cases hfollow
    exact absurd hfree hthere
  | case7 => cases hfollow
  | case8 links place step rest hplace hhere hup hshort path hlink hlast =>
    rw [follow_last_link (h.directory _ hplace) ⟨hhere, hup, hshort⟩ (h.link _ _ hlink) hlast]
    exact hfollow
  | case9 => cases hfollow
  | case10 place step rest hplace hhere hup hshort path hlink hlast links ih =>
    rw [follow_link (h.directory _ hplace) ⟨hhere, hup, hshort⟩ (h.link _ _ hlink) links hlast]
    exact ih hfollow
  | case11 links place step rest hplace hhere hup hshort node hlink hnode ih =>
    have hdown : IsDownward step := ⟨hhere, hup, hshort⟩
    cases node with
    | link path => exact absurd rfl (hlink path)
    | directory =>
      rw [follow_down (h.directory _ hplace) hdown (h.directory _ hnode) (by simp)]
      exact ih hfollow
    | file content =>
      -- A file is the end of the path, whether it is still there or not.
      cases rest with
      | cons next rest =>
        rw [follow_file hnode] at hfollow
        cases hfollow
      | nil =>
        rw [follow_nil] at hfollow
        rcases h.file _ _ hnode with hgone | ⟨other, hother⟩
        · rw [follow_free (h.directory _ hplace) hdown hgone]
          exact hfollow
        · rw [follow_down (h.directory _ hplace) hdown hother (by simp), follow_nil]
          exact hfollow
  | case12 => cases hfollow

/-- A path that leads to something leads to the same place. -/
theorem locate_eq (h : t.Retains t') {last : Bool} {path : String} {target : Location}
    (hlocate : t.locate last path = .ok target) (hthere : t.node? target ≠ none) :
    t'.locate last path = .ok target := by
  unfold locate at hlocate ⊢
  split_ifs at hlocate ⊢ with hpath
  · exact h.follow_eq hlocate hthere
  · rw [h.workingDirectory]
    exact h.follow_eq hlocate hthere

end Retains

namespace LinkFree

end LinkFree

end ServiceChains.FileTree
