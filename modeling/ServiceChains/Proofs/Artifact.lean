import ServiceChains.Artifact
import ServiceChains.Proofs.Json.Layout

/-!
# Writing and reading artifacts

A value is laid out as a text and the text as bytes. Reading undoes both, so the reader of a kind of
artifact sees the value that was written. Where nothing stands at a name, writing to that name
succeeds and the bytes are found there.
-/
namespace ServiceChains

/-- A path that leads to a name in the working directory. -/
@[mk_iff] structure Path.Names (path name : String) : Prop where
  steps : Path.steps path = [name] ∨ Path.steps path = [".", name]
  enclosing : Path.enclosing path = []
  relative : Path.isAbsolute path = false
  named : name ≠ "." ∧ name ≠ ".."
  short : name.utf8ByteSize ≤ FileTree.nameLimit
  accepted : (path.isEmpty || path.toList.contains '\x00') = false

instance Path.Names.decidable (path name : String) : Decidable (Path.Names path name) :=
  decidable_of_iff' _ (Path.names_iff path name)

namespace FileTree

theorem locate_name {t : FileTree} {path name : String} (h : Path.Names path name)
    (hdir : t.workingDirectory = []) (hlink : ∀ target, t.node? [name] ≠ some (.link target))
    (last : Bool) : t.locate last path = .ok [name] := by
  have hroot : t.node? [] = some .directory := rfl
  have hshort := h.short
  have hlast : t.follow last linkLimit [] [name] = .ok [name] := by
    rw [follow]
    simp only [hroot, h.named, ↓reduceIte, List.nil_append]
    rw [if_neg (by omega)]
    cases hn : t.node? [name] with
    | none => rfl
    | some node =>
      cases node with
      | link target => exact absurd hn (hlink target)
      | file content => simp only [follow]
      | directory => simp only [follow]
  rw [locate, h.accepted, h.relative, hdir]
  obtain hsteps | hsteps := h.steps
  · rw [hsteps]
    exact hlast
  · rw [hsteps, follow]
    exact hlast

/-- A name at which a file stands leads to its bytes. -/
theorem bytes?_name {t : FileTree} {path name : String} {content : ByteArray}
    (h : Path.Names path name) (hdir : t.workingDirectory = [])
    (hfile : t.node? [name] = some (.file content)) : t.bytes? path = some content := by
  have hplace := locate_name h hdir (by simp [hfile]) true
  simp only [bytes?, find?, hplace, hfile]

end FileTree

namespace Artifact

open FileTree

section

variable {path name temporary : String} {t : FileTree} (hname : Path.Names path name)
  (htemporary : Path.Names (temporaryPath path) temporary) (hnew : temporary ≠ name)
  (hdir : t.workingDirectory = []) (hfree : t.node? [name] = none)
  (hunused : t.node? [temporary] = none) (value : Json)

include hname htemporary hnew hdir hfree hunused

/-- Where nothing stands at a name and at the temporary one, a value is written to the name. -/
theorem write_name :
    write path value t =
      (.ok (), ((t.put [temporary] (.file value.render.toUTF8)).erase [temporary]).put [name]
        (.file value.render.toUTF8)) := by
  let content := FileNode.file value.render.toUTF8
  let written := t.put [temporary] content
  have hstored : written.node? [temporary] = some content := by
    simp [written, node?_put]
  have hstill : written.node? [name] = none := by
    simp [written, node?_put, hnew.symm, hfree]
  have hwrite : t.write? (temporaryPath path) value.render.toUTF8 = some written := by
    have hplace := locate_name htemporary hdir (by simp [hunused]) true
    simp only [write?, hplace, hunused]
    rfl
  have hrename : written.rename? (temporaryPath path) path =
      some ((written.erase [temporary]).put [name] content) := by
    have hold := locate_name htemporary (t := written) hdir (by simp [hstored, content]) false
    have hplace := locate_name hname (t := written) hdir (by simp [hstill]) false
    simp only [rename?, hold, hplace, hstored, hstill]
    rfl
  simp only [write, hname.enclosing, makeDirectories, hwrite, hrename]
  rfl

/-- A value is found at the name to which it was written, if nothing stood at that name and at the
temporary one. -/
theorem exists_write :
    ∃ t', write path value t = (.ok (), t') ∧ t'.bytes? path = some value.render.toUTF8 := by
  refine ⟨_, write_name hname htemporary hnew hdir hfree hunused value, ?_⟩
  apply bytes?_name hname
  · exact hdir
  · rw [node?_put _ _ _ _ (by simp), if_pos rfl]

end

/-- The reader of a kind of artifact sees the value that was written. -/
theorem read_of_bytes? {α : Type} (ofJson? : Nat → Json → Option α) {t : FileTree} {path : String}
    {value : Json} (hplain : value.Plain) (h : t.bytes? path = some value.render.toUTF8) :
    read ofJson? t path = (ofJson? Json.nestingLimit value).elim
      (.error (.artifactRead path "not an artifact of this kind")) .ok := by
  have hvalue : readJson t path = .ok value := by
    simp only [readJson, h, Text.fromUTF8?_toUTF8, Option.bind_some, Json.parse?_render hplain]
  simp only [read, hvalue]
  cases ofJson? Json.nestingLimit value <;> rfl

end Artifact

end ServiceChains
