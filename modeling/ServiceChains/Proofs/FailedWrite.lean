import Mathlib
import ServiceChains.Analysis
import ServiceChains.Proofs.Artifact
import ServiceChains.Proofs.FileTree.Removal

/-!
# Failed writes

Writing an artifact creates directories, writes a temporary file and renames it. Where one of these
fails, nothing but the place of the temporary file has changed, apart from directories where nothing
stood before; whatever a path led to is still there. Results are two artifacts, though, written one
after the other: if the second one fails, the first one has been replaced.
-/
namespace ServiceChains

namespace FileTree

variable {t t' u : FileTree}

/-- Nothing has changed at a place, or a directory stands where nothing stood. -/
def Keeps (t t' : FileTree) (place : Location) : Prop :=
  t'.node? place = t.node? place ∨ t.node? place = none ∧ t'.node? place = some .directory

theorem Keeps.node?_eq {place : Location} (h : t.Keeps t' place) {node : FileNode}
    (hnode : t.node? place = some node) : t'.node? place = some node := by
  rcases h with hsame | ⟨hfree, -⟩
  · rw [hsame, hnode]
  · rw [hnode] at hfree
    cases hfree

theorem ne_nil_of_node?_ne_directory {place : Location} (h : t.node? place ≠ some .directory) :
    place ≠ [] := by
  rintro rfl
  exact h rfl

/-- At most directories are new. -/
structure Grows (t t' : FileTree) : Prop where
  workingDirectory : t'.workingDirectory = t.workingDirectory
  keeps : ∀ place, t.Keeps t' place

namespace Grows

theorem refl (t : FileTree) : t.Grows t :=
  ⟨rfl, fun _ => .inl rfl⟩

theorem trans (h : t.Grows t') (h' : t'.Grows u) : t.Grows u where
  workingDirectory := h'.workingDirectory.trans h.workingDirectory
  keeps place := by
    rcases h.keeps place with hsame | ⟨hfree, hnew⟩
    · rcases h'.keeps place with hsame' | ⟨hfree', hnew'⟩
      · exact .inl (hsame'.trans hsame)
      · exact .inr ⟨hsame ▸ hfree', hnew'⟩
    · rcases h'.keeps place with hsame' | ⟨hfree', -⟩
      · exact .inr ⟨hfree, hsame'.trans hnew⟩
      · rw [hnew] at hfree'
        cases hfree'

end Grows

theorem grows_of_makeDirectory? {path : String} (h : t.makeDirectory? path = some t') :
    t.Grows t' := by
  rw [makeDirectory?] at h
  split at h
  · cases h
  · next place _ =>
    split_ifs at h with hthere
    cases h
    rw [Bool.not_eq_true, Option.isSome_eq_false_iff, Option.isNone_iff_eq_none] at hthere
    have hne : place ≠ [] := by
      rintro rfl
      simp at hthere
    refine ⟨rfl, fun other => ?_⟩
    rw [Keeps, node?_put _ _ _ _ hne]
    split_ifs with hother
    · exact .inr ⟨hother ▸ hthere, rfl⟩
    · exact .inl rfl

theorem grows_makeDirectories (paths : List String) (t : FileTree) :
    t.Grows (makeDirectories paths t).2 := by
  induction paths generalizing t with
  | nil => exact .refl t
  | cons path paths ih =>
    rw [makeDirectories]
    split_ifs with hthere
    · exact ih t
    · split
      · next made hmade => exact (grows_of_makeDirectory? hmade).trans (ih made)
      · exact .refl t

theorem Grows.node?_eq (h : t.Grows t') {place : Location} {node : FileNode}
    (hnode : t.node? place = some node) : t'.node? place = some node :=
  (h.keeps place).node?_eq hnode

theorem Grows.retains (h : t.Grows t') : t.Retains t' where
  workingDirectory := h.workingDirectory
  directory _ hplace := h.node?_eq hplace
  link _ _ hlink := h.node?_eq hlink
  file _ content hfile := .inr ⟨content, h.node?_eq hfile⟩

section Put

variable {place : Location} (h : t.Grows t') (hplace : t'.node? place ≠ some .directory)
include h hplace

theorem Grows.keeps_put (node : FileNode) {other : Location} (hother : other ≠ place) :
    t.Keeps (t'.put place node) other := by
  rw [Keeps, node?_put _ _ _ _ (ne_nil_of_node?_ne_directory hplace), if_neg hother]
  exact h.keeps other

/-- A file put where neither a directory nor a link stood leaves the way of every path open. -/
theorem Grows.retains_put (content : ByteArray)
    (hlink : ∀ target, t.node? place ≠ some (.link target)) :
    t.Retains (t'.put place (.file content)) where
  workingDirectory := h.workingDirectory
  directory other hdirectory := by
    have hother : other ≠ place := by
      rintro rfl
      exact hplace (h.node?_eq hdirectory)
    exact (h.keeps_put hplace (.file content) hother).node?_eq hdirectory
  link other target hfound := by
    have hother : other ≠ place := by
      rintro rfl
      exact hlink target hfound
    exact (h.keeps_put hplace (.file content) hother).node?_eq hfound
  file other found hfound := by
    rw [node?_put _ _ _ _ (ne_nil_of_node?_ne_directory hplace)]
    split_ifs with hother
    · exact .inr ⟨content, rfl⟩
    · exact .inr ⟨found, h.node?_eq hfound⟩

end Put

/-- A file is written at the place to which its path leads, unless that is a directory. -/
theorem exists_put_of_write? {path : String} {content : ByteArray}
    (h : t.write? path content = some t') :
    ∃ place, t.locate true path = .ok place ∧ t.node? place ≠ some .directory ∧
      t' = t.put place (.file content) := by
  rw [write?] at h
  split at h
  · cases h
  · next place hlocated =>
    split at h
    · cases h
    · next hnode =>
      cases h
      exact ⟨place, hlocated, hnode, rfl⟩

/-- Removing something leaves the places outside it alone. -/
theorem node?_erase {old place : Location} (h : ¬ old <+: place) :
    (t.erase old).node? place = t.node? place := by
  have hkept : (!old.isPrefixOf place) = true := by
    rwa [Bool.not_eq_true', ← Bool.not_eq_true, List.isPrefixOf_iff_prefix]
  have hlookup := lookup_filter_key (fun other => !old.isPrefixOf other) t.entries place
  rw [if_pos hkept] at hlookup
  rw [node?, node?, ← hlookup]
  rfl

/-- A file or link is renamed to a place where no directory stands. -/
theorem exists_put_of_rename? {source target : String} (h : t.rename? source target = some t') :
    ∃ old new node, t.locate false source = .ok old ∧ t.locate false target = .ok new ∧
      t.node? old = some node ∧ t.node? new ≠ some .directory ∧
      t' = (t.erase old).put new node := by
  rw [rename?] at h
  split at h
  · next old new hold hnew =>
    split at h
    · cases h
    · cases h
    · cases h
    · next node _ hnode hdirectory =>
      cases h
      exact ⟨old, new, node, hold, hnew, hnode, hdirectory, rfl⟩
  · cases h

end FileTree

namespace Artifact

open FileTree

variable {path : String} {value : Json} {t t' : FileTree} {e : AnalysisError}

/-- The place of the temporary file of an artifact, once the directories on the way are there. -/
def temporaryPlaces (path : String) (t : FileTree) : Set Location :=
  {place | (makeDirectories (Path.enclosing path) t).2.locate true (temporaryPath path) = .ok place}

/-- The tree in which the temporary file of an artifact is about to be renamed. -/
def prepared (path : String) (value : Json) (t : FileTree) : FileTree :=
  let made := (makeDirectories (Path.enclosing path) t).2
  (made.write? (temporaryPath path) value.render.toUTF8).getD made

/-- A write fails before its temporary file is there, or has put it at its place. Then it fails with
the file left behind, or renames it. -/
theorem write_cases (path : String) (value : Json) (t : FileTree) :
    (∃ reason made, write path value t = (.error (.artifactWrite path reason), made) ∧
      t.Grows made) ∨
    ∃ place made, place ∈ temporaryPlaces path t ∧ t.Grows made ∧
      made.node? place ≠ some .directory ∧
      prepared path value t = made.put place (.file value.render.toUTF8) ∧
      ((∃ reason, write path value t =
          (.error (.artifactWrite path reason), prepared path value t)) ∨
        ∃ renamed, (prepared path value t).rename? (temporaryPath path) path = some renamed ∧
          write path value t = (.ok (), renamed)) := by
  have hgrows := grows_makeDirectories (Path.enclosing path) t
  unfold write prepared temporaryPlaces
  generalize makeDirectories (Path.enclosing path) t = attempt at hgrows ⊢
  obtain ⟨done, made⟩ := attempt
  cases done with
  | false => exact .inl ⟨_, made, rfl, hgrows⟩
  | true =>
    cases hwrite : made.write? (temporaryPath path) value.render.toUTF8 with
    | none => exact .inl ⟨"cannot write the temporary file", made, by simp only [hwrite], hgrows⟩
    | some written =>
      obtain ⟨place, hlocated, hnode, hput⟩ := exists_put_of_write? hwrite
      simp only [hwrite, Option.getD_some]
      refine .inr ⟨place, made, hlocated, hgrows, hnode, hput, ?_⟩
      cases written.rename? (temporaryPath path) path with
      | none => exact .inl ⟨_, rfl⟩
      | some renamed => exact .inr ⟨renamed, rfl, rfl⟩

/-- A failed write has created directories at most, or has left its temporary file behind. -/
theorem write_error_cases (h : write path value t = (.error e, t')) :
    (∃ reason, e = .artifactWrite path reason) ∧
      (t.Grows t' ∨ ∃ place ∈ temporaryPlaces path t, ∃ made : FileTree, t.Grows made ∧
        made.node? place ≠ some .directory ∧ t' = made.put place (.file value.render.toUTF8)) := by
  rcases write_cases path value t with ⟨reason, made, hwrite, hgrows⟩ |
    ⟨place, made, hplace, hgrows, hnode, hput, ⟨reason, hwrite⟩ | ⟨renamed, -, hwrite⟩⟩
  · obtain ⟨rfl, rfl⟩ : AnalysisError.artifactWrite path reason = e ∧ made = t' := by
      simpa using hwrite.symm.trans h
    exact ⟨⟨reason, rfl⟩, .inl hgrows⟩
  · obtain ⟨rfl, rfl⟩ : AnalysisError.artifactWrite path reason = e ∧
        prepared path value t = t' := by simpa using hwrite.symm.trans h
    exact ⟨⟨reason, rfl⟩, .inr ⟨place, hplace, made, hgrows, hnode, hput⟩⟩
  · simp [hwrite] at h

/-- A failed write changes nothing but the place of its temporary file. -/
theorem keeps_of_write_error (h : write path value t = (.error e, t')) {place : Location}
    (hplace : place ∉ temporaryPlaces path t) : t.Keeps t' place := by
  rcases (write_error_cases h).2 with hgrows | ⟨temporary, hmem, made, hgrows, hnode, rfl⟩
  · exact hgrows.keeps place
  · refine hgrows.keeps_put hnode _ ?_
    rintro rfl
    exact hplace hmem

/-- After a failed write, a path leads to the file to which it led, if that is not the temporary
file. -/
theorem bytes?_of_write_error (h : write path value t = (.error e, t')) {other : String}
    {content : ByteArray} (hbytes : t.bytes? other = some content)
    (hother : ∀ place ∈ temporaryPlaces path t, t.locate true other ≠ .ok place ∧
      ∀ target, t.node? place ≠ some (.link target)) : t'.bytes? other = some content := by
  obtain ⟨place, hlocated, hfile⟩ := bytes?_eq_some_iff.mp hbytes
  have hretains : t.Retains t' := by
    rcases (write_error_cases h).2 with hgrows | ⟨temporary, hmem, made, hgrows, hnode, rfl⟩
    · exact hgrows.retains
    · exact hgrows.retains_put hnode _ (hother temporary hmem).2
  have hkeeps : t.Keeps t' place :=
    keeps_of_write_error h fun hmem => (hother place hmem).1 hlocated
  exact bytes?_eq_some_iff.mpr
    ⟨place, hretains.locate_eq hlocated (by simp [hfile]), hkeeps.node?_eq hfile⟩

/-- What a successful write does: what stood at the temporary name now stands at the path, and
nothing else has changed. -/
structure Replaces (path : String) (value : Json) (t t' : FileTree) (old new : Location) : Prop where
  source : (prepared path value t).locate false (temporaryPath path) = .ok old
  target : (prepared path value t).locate false path = .ok new
  moved : t'.node? new = (prepared path value t).node? old
  keeps : ∀ place, place ∉ temporaryPlaces path t → ¬ old <+: place → place ≠ new → t.Keeps t' place

theorem exists_replaces_of_write_ok (h : write path value t = (.ok (), t')) :
    ∃ old new, Replaces path value t t' old new := by
  rcases write_cases path value t with ⟨reason, made, hwrite, -⟩ |
    ⟨temporary, made, htemporary, hgrows, hnode, hput, ⟨reason, hwrite⟩ | ⟨renamed, hrename, hwrite⟩⟩
  · simp [hwrite] at h
  · simp [hwrite] at h
  · obtain rfl : renamed = t' := by simpa using hwrite.symm.trans h
    obtain ⟨old, new, node, hold, hnew, hfound, hfree, rfl⟩ := exists_put_of_rename? hrename
    have hne := ne_nil_of_node?_ne_directory hfree
    refine ⟨old, new, hold, hnew, ?_, ?_⟩
    · rw [node?_put _ _ _ _ hne, if_pos rfl, hfound]
    · intro place hplace hold' hnew'
      rw [Keeps, node?_put _ _ _ _ hne, if_neg hnew', node?_erase hold', hput]
      refine hgrows.keeps_put hnode _ ?_
      rintro rfl
      exact hplace htemporary

section Names

variable {name : String} (hname : Path.Names name name)
  (htemporary : Path.Names (temporaryPath name) (temporaryPath name))
  (hdir : t.workingDirectory = [])
include hname htemporary hdir

/-- The temporary file of a plain name stands beside what has that name. -/
theorem locate_put_temporary (content : ByteArray)
    (hlink : ∀ target, t.node? [name] ≠ some (.link target)) :
    let written := t.put [temporaryPath name] (.file content)
    written.locate false (temporaryPath name) = .ok [temporaryPath name] ∧
      written.locate false name = .ok [name] ∧
      written.node? [temporaryPath name] = some (.file content) ∧
      written.node? [name] = t.node? [name] := by
  intro written
  have hother : [FileName.text name] ≠ [FileName.text (temporaryPath name)] := by
    intro hsame
    have hlength := congrArg String.length (FileName.text.inj (List.singleton_inj.mp hsame))
    simp [temporaryPath] at hlength
  have hstored : written.node? [temporaryPath name] = some (.file content) := by
    simp [written, node?_put]
  have hstill : written.node? [name] = t.node? [name] := by
    rw [node?_put _ _ _ _ (by simp), if_neg hother]
  have hold := locate_name (t := written) htemporary hdir (by simp [hstored]) false
  have hnew := locate_name (t := written) hname hdir (by rwa [hstill]) false
  exact ⟨hold, hnew, hstored, hstill⟩

variable (hunused : t.node? [temporaryPath name] = none)
include hunused

/-- A directory at the name of an artifact makes its write fail. -/
theorem write_name_of_directory (value : Json) (hblocked : t.node? [name] = some .directory) :
    write name value t = (.error (.artifactWrite name "cannot rename the temporary file"),
      t.put [temporaryPath name] (.file value.render.toUTF8)) := by
  have hplace := locate_name htemporary hdir (by simp [hunused]) true
  obtain ⟨hold, hnew, hstored, hstill⟩ := locate_put_temporary hname htemporary hdir
    value.render.toUTF8 (by simp [hblocked])
  unfold write
  rw [hname.enclosing, makeDirectories]
  simp only [write?, hplace, hunused, rename?, hold, hnew, hstored, hstill, hblocked]

/-- A file at the name of an artifact is replaced. -/
theorem write_name_of_file (value : Json) {content : ByteArray}
    (hfile : t.node? [name] = some (.file content)) :
    write name value t = (.ok (), ((t.put [temporaryPath name] (.file value.render.toUTF8)).erase
      [temporaryPath name]).put [name] (.file value.render.toUTF8)) := by
  have hplace := locate_name htemporary hdir (by simp [hunused]) true
  obtain ⟨hold, hnew, hstored, hstill⟩ := locate_put_temporary hname htemporary hdir
    value.render.toUTF8 (by simp [hfile])
  unfold write
  rw [hname.enclosing, makeDirectories]
  simp only [write?, hplace, hunused, rename?, hold, hnew, hstored, hstill, hfile]

end Names

end Artifact

namespace Analysis

open FileTree Artifact

/-- When results cannot be written, the artifact that failed is named. Nothing has changed since its
own write began but the place of its temporary file, apart from new directories, and every path leads
to the file to which it led. If the chains failed, the interactions have been replaced before. -/
theorem failed_write_keeps_artifacts (s : Settings) (root : String) (r : AnalysisResult)
    (t t' : FileTree) (e : AnalysisError) (h : writeResults s root r t = (.error e, t')) :
    ∃ path reason before, e = .artifactWrite path reason ∧
      (path = s.output.interactionsPath root ∧ before = t ∨
        path = s.output.chainsPath root ∧ ∃ old new,
          Replaces (s.output.interactionsPath root) r.interactions.toJson t before old new) ∧
      (∀ place ∉ temporaryPlaces path before, before.Keeps t' place) ∧
      ∀ other content, before.bytes? other = some content →
        (∀ place ∈ temporaryPlaces path before, before.locate true other ≠ .ok place ∧
          ∀ target, before.node? place ≠ some (.link target)) →
        t'.bytes? other = some content := by
  rw [writeResults] at h
  rcases hfirst : write (s.output.interactionsPath root) r.interactions.toJson t with
    ⟨outcome, middle⟩
  rw [hfirst] at h
  cases outcome with
  | error e' =>
    simp only [Prod.mk.injEq, Except.error.injEq] at h
    obtain ⟨rfl, rfl⟩ := h
    obtain ⟨reason, rfl⟩ := (write_error_cases hfirst).1
    refine ⟨_, reason, t, rfl, .inl ⟨rfl, rfl⟩, fun place => keeps_of_write_error hfirst, ?_⟩
    intro other content
    exact bytes?_of_write_error hfirst
  | ok done =>
    have hsecond : write (s.output.chainsPath root) r.chains.toJson middle = (.error e, t') := h
    obtain ⟨reason, rfl⟩ := (write_error_cases hsecond).1
    refine ⟨_, reason, middle, rfl, .inr ⟨rfl, exists_replaces_of_write_ok hfirst⟩,
      fun place => keeps_of_write_error hsecond, ?_⟩
    intro other content
    exact bytes?_of_write_error hsecond

/-- Earlier chains, and a directory where the interactions go. -/
def interactionsBlocked : FileTree where
  entries := [(["interactions_results.json"], .directory),
    (["interaction_chain.json"], .file "old".toUTF8)]

/-- If the interactions cannot be written, the earlier chains are still there. -/
theorem failed_write_keeps_artifacts_blocked :
    ∃ e t', writeResults {} "" ⟨{}, []⟩ interactionsBlocked = (.error e, t') ∧
      t'.bytes? (({} : Settings).output.chainsPath "") = some "old".toUTF8 := by
  have hname : Path.Names "interactions_results.json" "interactions_results.json" := by decide
  have htemporary : Path.Names (temporaryPath "interactions_results.json")
      (temporaryPath "interactions_results.json") := by decide
  have hchainsName : Path.Names "interaction_chain.json" "interaction_chain.json" := by decide
  have hpath : ({} : Settings).output.interactionsPath "" = "interactions_results.json" := by decide
  have hpath' : ({} : Settings).output.chainsPath "" = "interaction_chain.json" := by decide
  have hfirst := write_name_of_directory (t := interactionsBlocked) hname
    htemporary rfl rfl ({} : InteractionResults).toJson rfl
  have hrun : writeResults {} "" ⟨{}, []⟩ interactionsBlocked =
      write "interactions_results.json" ({} : InteractionResults).toJson interactionsBlocked := by
    rw [writeResults, hpath, hfirst]
  have hold : interactionsBlocked.node? ["interaction_chain.json"] = some (.file "old".toUTF8) := rfl
  have hchains := bytes?_name hchainsName rfl hold
  have hunused : interactionsBlocked.node? [temporaryPath "interactions_results.json"] = none := rfl
  have hplaces : temporaryPlaces "interactions_results.json" interactionsBlocked =
      {[FileName.text (temporaryPath "interactions_results.json")]} := by
    ext place
    have hplace := locate_name (t := interactionsBlocked) htemporary rfl
      (by simp [hunused]) true
    rw [temporaryPlaces, hname.enclosing, Set.mem_ofPred_eq, makeDirectories, hplace,
      Except.ok.injEq, Set.mem_singleton_iff, eq_comm]
  refine ⟨_, _, hrun.trans hfirst, ?_⟩
  obtain ⟨path, reason, before, he, hcase, -, hkept⟩ :=
    failed_write_keeps_artifacts _ _ _ _ _ _ (hrun.trans hfirst)
  obtain ⟨rfl, -⟩ := AnalysisError.artifactWrite.inj he
  rw [hpath, hpath'] at hcase
  obtain ⟨-, rfl⟩ | ⟨hother, -⟩ := hcase
  · rw [hpath']
    refine hkept _ _ hchains ?_
    rw [hplaces]
    rintro place rfl
    have hlocated := locate_name (t := interactionsBlocked) hchainsName rfl
      (by simp [hold]) true
    refine ⟨?_, by simp [hunused]⟩
    rw [hlocated]
    exact fun hsame => absurd (Except.ok.inj hsame) (by decide)
  · exact absurd hother (by decide)

/-- Earlier interactions, and a directory where the chains go. -/
def chainsBlocked : FileTree where
  entries := [(["interactions_results.json"], .file "old".toUTF8),
    (["interaction_chain.json"], .directory)]

/-- The tree after the interactions have been written. -/
def interactionsWritten : FileTree where
  entries := [(["interaction_chain.json"], .directory),
    (["interactions_results.json"], .file ({} : InteractionResults).toJson.render.toUTF8)]

/-- If the chains cannot be written, the earlier interactions are lost. -/
theorem failed_write_replaces_interactions :
    ∃ e t', writeResults {} "" ⟨{}, []⟩ chainsBlocked = (.error e, t') ∧
      chainsBlocked.bytes? (({} : Settings).output.interactionsPath "") = some "old".toUTF8 ∧
      t'.bytes? (({} : Settings).output.interactionsPath "") ≠ some "old".toUTF8 := by
  have hname : Path.Names "interactions_results.json" "interactions_results.json" := by decide
  have hchainsName : Path.Names "interaction_chain.json" "interaction_chain.json" := by decide
  have hpath : ({} : Settings).output.interactionsPath "" = "interactions_results.json" := by decide
  have hpath' : ({} : Settings).output.chainsPath "" = "interaction_chain.json" := by decide
  have hfirst : write "interactions_results.json" ({} : InteractionResults).toJson chainsBlocked =
      (.ok (), interactionsWritten) :=
    write_name_of_file hname (by decide) rfl rfl _ rfl
  have hsecond := write_name_of_directory (t := interactionsWritten) hchainsName
    (by decide) rfl rfl (ChainForest.toJson []) rfl
  have hrun : writeResults {} "" ⟨{}, []⟩ chainsBlocked =
      write "interaction_chain.json" (ChainForest.toJson []) interactionsWritten := by
    rw [writeResults, hpath, hpath', hfirst]
  refine ⟨_, _, hrun.trans hsecond, ?_, ?_⟩
  · rw [hpath]
    exact bytes?_name hname rfl rfl
  · rw [hpath, bytes?_name hname rfl rfl]
    intro hsame
    have htext := congrArg String.fromUTF8? (Option.some.inj hsame)
    rw [Text.fromUTF8?_toUTF8, Text.fromUTF8?_toUTF8, Option.some_inj] at htext
    revert htext
    decide +kernel

end Analysis

end ServiceChains
