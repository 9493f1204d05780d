import Mathlib
import ServiceChains.Proofs.CallGraph
import ServiceChains.Proofs.FileTree.Removal
import ServiceChains.Proofs.Path
import ServiceChains.Proofs.Source.Route

/-!
# Source files below a directory

Without ignore files, the source files found from a path are those of the directory to which it
leads, in order; which they are depends on their locations and contents only. A scan of the files of
a service collects what each of them declares: routes, methods with their calls, and errors.
-/
namespace ServiceChains

open Location

/-- Is this the name of a source file? -/
def ScanSettings.admitsName (s : ScanSettings) (name : FileName) : Bool :=
  name.extension? ==
    some (String.ofList (s.effectiveSourceExtension.toList.dropWhile (· == '.')))

theorem ScanSettings.admitsName_iff {s : ScanSettings} {name : FileName} :
    s.admitsName name = true ↔ name.HasExtension
      (String.ofList (s.effectiveSourceExtension.toList.dropWhile (· == '.'))) := by
  rw [admitsName, beq_iff_eq, FileName.extension?_eq_some_iff]

/-- Is a file with this content too large? -/
def ScanSettings.exceeds (s : ScanSettings) (content : ByteArray) : Bool :=
  decide (s.effectiveMaxFileSize.toNat < content.size)

namespace SourceFile

/-- The file at a location, found from a path that leads to `place`. -/
def seenFrom (path : String) (place : Location) (f : Location × ByteArray) : SourceFile :=
  ⟨path, f.1.drop place.length, f.2⟩

variable {path : String} {place : Location} {f : Location × ByteArray}

theorem read_of_content {file : SourceFile} {text : String} (h : file.content = text.toUTF8) :
    file.read = .ok text := by
  rw [read, h, Text.fromUTF8?_toUTF8]

theorem seenFrom_append (path : String) (place r : Location) (content : ByteArray) :
    seenFrom path place (place ++ r, content) = ⟨path, r, content⟩ := by
  simp [seenFrom]

theorem fileName_seenFrom (hf : isBelow place f.1 = true) :
    (seenFrom path place f).fileName = f.1.getLast?.getD "" := by
  obtain ⟨r, hne, hr⟩ := isBelow_iff.mp hf
  rw [fileName, seenFrom, hr, List.drop_left, List.getLast?_append_of_ne_nil _ hne,
    List.getLast?_eq_some_getLast hne]
  rfl

theorem isSource_seenFrom (s : ScanSettings) (hf : isBelow place f.1 = true) :
    (seenFrom path place f).isSource s = s.admitsName (f.1.getLast?.getD "") := by
  rw [isSource, fileName_seenFrom hf, ScanSettings.admitsName]

end SourceFile

namespace FileTree

variable {t : FileTree} {s : ScanSettings} {path : String} {place : Location}

/-- The path leads to a directory, and is not taken for the standard input where files are looked up.
-/
structure IsWalked (t : FileTree) (path : String) (place : Location) : Prop where
  located : t.locate true path = .ok place
  directory : t.node? place = some .directory
  named : Path.isStandardInput path = false

/-- The working directory is walked from the path that stays there. -/
theorem isWalked_here (hdir : t.workingDirectory = []) : t.IsWalked "." [] := by
  have hsteps : Path.steps "." = ["."] := by decide
  refine ⟨?_, rfl, by decide⟩
  rw [locate, if_neg (by decide), if_neg (by decide), hsteps, hdir, follow_here rfl, follow_nil]

theorem IsWalked.ne_empty (h : t.IsWalked path place) : path ≠ "" := by
  rintro rfl
  have hlocated := h.located
  simp [locate] at hlocated

theorem exists_isWalked (hnamed : Path.isStandardInput path = false)
    (hdirectory : t.isDirectory path = true) : ∃ place, t.IsWalked path place := by
  rw [isDirectory, find?] at hdirectory
  split at hdirectory
  · next hfound =>
    split at hfound
    · next place hlocated => exact ⟨place, hlocated, hfound, hnamed⟩
    · cases hfound
  · cases hdirectory

theorem isDirectory_iff_exists_isWalked (hnamed : Path.isStandardInput path = false) :
    t.isDirectory path = true ↔ ∃ place, t.IsWalked path place := by
  refine ⟨exists_isWalked hnamed, ?_⟩
  rintro ⟨place, hwalked⟩
  simp only [isDirectory, find?, hwalked.located, hwalked.directory]

/-- The path of the source root of a service. -/
def sourceRootOf (s : ScanSettings) (root service : String) : String :=
  Path.join (Path.join root service) s.sourceRootPath

theorem serviceFiles_eq (t : FileTree) (s : ScanSettings) (root service : String) :
    t.serviceFiles s root service =
      if t.isDirectory (sourceRootOf s root service) then
        t.sourceFiles s (sourceRootOf s root service)
      else ⟨[], []⟩ := rfl

/-- The source files below a place, each at its own location, in order. -/
def sourcesBelow (t : FileTree) (s : ScanSettings) (place : Location) :
    List (Location × ByteArray) :=
  (t.filesBelow place).filter fun f => s.admitsName (f.1.getLast?.getD "")

theorem ListsOnce.sourcesBelow_append (h : t.ListsOnce) (s : ScanSettings)
    (place inner : Location) :
    t.sourcesBelow s (place ++ inner) =
      (t.sourcesBelow s place).filter fun f => isBelow (place ++ inner) f.1 := by
  rw [sourcesBelow, h.filesBelow_append, List.filter_comm, sourcesBelow]

theorem IsWalked.files_eq (h : t.IsWalked path place) :
    t.files (fun _ _ => false) path =
      .ok ((t.filesBelow place).map (SourceFile.seenFrom path place)) := by
  have hfiles : (t.filesBelow place).map (SourceFile.seenFrom path place) =
      (t.below place).filterMap fun entry =>
        entry.2.content?.map fun content => ⟨path, entry.1, content⟩ := by
    rw [filesBelow, List.map_filterMap]
    simp only [Option.map_map, Function.comp_def, SourceFile.seenFrom_append]
  rw [hfiles, files, h.located]
  simp only [bind, Except.bind, h.directory, pure, Except.pure]
  congr 2
  funext entry
  cases hnode : entry.2 <;> simp [FileNode.content?]

theorem IsWalked.sourceFiles_eq (h : t.IsWalked path place)
    (hignore : s.effectiveRespectIgnoreFiles = false) :
    t.sourceFiles s path =
      let sources := (t.sourcesBelow s place).map (SourceFile.seenFrom path place)
      ⟨sources.filter (!·.isTooLarge s), (sources.filter (·.isTooLarge s)).map (·.sizeError s)⟩ := by
  have hsources : ((t.filesBelow place).map (SourceFile.seenFrom path place)).filter
      (·.isSource s) = (t.sourcesBelow s place).map (SourceFile.seenFrom path place) := by
    rw [List.filter_map, sourcesBelow]
    congr 1
    apply List.filter_congr
    intro f hf
    exact SourceFile.isSource_seenFrom s (mem_filesBelow.mp hf).2
  rw [sourceFiles]
  simp only [hignore, h.named, h.files_eq, hsources, Bool.false_eq_true, ↓reduceIte]

/-- The source files that are not too large are listed. -/
theorem IsWalked.data_sourceFiles (h : t.IsWalked path place)
    (hignore : s.effectiveRespectIgnoreFiles = false) :
    (t.sourceFiles s path).data =
      ((t.sourcesBelow s place).filter fun f => !s.exceeds f.2).map
        (SourceFile.seenFrom path place) := by
  rw [h.sourceFiles_eq hignore]
  exact List.filter_map

namespace ListsOnce

variable {gone : Location × ByteArray → Bool}

/-- Directories are walked with or without some of their files. -/
theorem isWalked_withoutFiles (h : t.ListsOnce) :
    (t.withoutFiles gone).IsWalked path place ↔ t.IsWalked path place := by
  constructor
  · intro hwalked
    have hthere : (t.withoutFiles gone).node? place ≠ none := by simp [hwalked.directory]
    refine ⟨?_, h.withoutFiles_retains.directory _ hwalked.directory, hwalked.named⟩
    exact h.withoutFiles_retains.locate_eq hwalked.located hthere
  · intro hwalked
    refine ⟨?_, h.retains_withoutFiles.directory _ hwalked.directory, hwalked.named⟩
    exact h.retains_withoutFiles.locate_eq hwalked.located (by simp [hwalked.directory])

/-- Files that are no sources do not matter to discovery. -/
theorem services_withoutFiles (h : t.ListsOnce) (hroot : t.IsWalked path place)
    (hignore : s.effectiveRespectIgnoreFiles = false)
    (hgone : ∀ f, gone f = true → s.admitsName (f.1.getLast?.getD "") = false) :
    (t.withoutFiles gone).services s path = t.services s path := by
  have hsources : (t.withoutFiles gone).sourcesBelow s place = t.sourcesBelow s place := by
    rw [sourcesBelow, h.filesBelow_withoutFiles, List.filter_filter, sourcesBelow]
    apply List.filter_congr
    intro f _
    cases hf : gone f with
    | true => simp [hgone f hf]
    | false => simp
  have hroot' : (t.withoutFiles gone).IsWalked path place := h.isWalked_withoutFiles.mpr hroot
  rw [services, services, hroot'.sourceFiles_eq hignore, hroot.sourceFiles_eq hignore, hsources]

end ListsOnce

end FileTree

namespace Analysis

open Source

variable (s : ScanSettings) (files : List SourceFile)

end Analysis

namespace CallGraph

variable {units : List (String × List Char)} {unit : String × List Char}

end CallGraph

end ServiceChains
