import Mathlib
import ServiceChains.Proofs.Scan.Agreement
import ServiceChains.Proofs.Tally
import ServiceChains.Proofs.Text.ByteOrder
import ServiceChains.Proofs.Text.LastDot

/-!
# The sources that discovery gives to services

Discovery goes through all files below a directory. It gives a source file of admissible size that
stands inside a source root to the outermost directory above it whose name is that of a service, and
to no other. The services come in the order of their names, and the files of each in the order of
their locations, name by name: a directory comes where its own name belongs, with all that is in it.

Two things are special. A directory whose name is not a text is passed over where source root and
service are looked for, as if its contents stood in the directory above it. And nothing is found from
a path that stands for the standard input, even if a directory is there.
-/
namespace ServiceChains

open Location

namespace ScanSettings

/-- Begins and ends as the settings say that the name of a service does. -/
def NamesService (s : ScanSettings) (name : String) : Prop :=
  s.effectiveServicePrefix.toList <+: name.toList ∧ s.effectiveServiceSuffix.toList <:+ name.toList

theorem admits_iff (s : ScanSettings) (name : String) :
    (Convention.ofSettings s).admits name = true ↔ s.NamesService name := by
  rw [Convention.admits, Bool.and_eq_true, List.isPrefixOf_iff_prefix, List.isSuffixOf_iff_suffix]
  rfl

/-- The file `name` inside of `directories`, the outermost of them first, is a source of a service.
-/
structure Attributes (s : ScanSettings) (service : String) (directories : List String)
    (name : FileName) (content : ByteArray) : Prop where
  extension : name.HasExtension
    (String.ofList (s.effectiveSourceExtension.toList.dropWhile (· == '.')))
  size : content.size ≤ s.effectiveMaxFileSize.toNat
  sourceRoot : Path.pieces s.effectiveSourceRoot <:+: directories
  named : s.NamesService service
  first : ∃ before after, directories = before ++ service :: after ∧
    ∀ directory ∈ before, ¬ s.NamesService directory

theorem sourceRootNames_eq_pieces (s : ScanSettings) :
    s.sourceRootNames = Path.pieces s.effectiveSourceRoot := by
  rw [sourceRootNames_eq, sourceRootPath, Path.pieces_withoutOuterSlashes]

end ScanSettings

theorem SourceFile.directories_of_relative {f : SourceFile} {directories : Location}
    {name : FileName} (h : f.relative = directories ++ [name]) :
    f.directories = directories.filterMap FileName.text? := by
  rw [SourceFile.directories, h, List.dropLast_concat]

/-- A file inside a source root belongs to the outermost directory that names a service. -/
theorem SourceFile.service?_eq_some_iff {s : ScanSettings} (hnames : s.sourceRootNames ≠ [])
    {f : SourceFile} {service : String} :
    f.service? s = some service ↔
      Path.pieces s.effectiveSourceRoot <:+: f.directories ∧ s.NamesService service ∧
      ∃ before after, f.directories = before ++ service :: after ∧
        ∀ directory ∈ before, ¬ s.NamesService directory := by
  have hempty : s.sourceRootNames.isEmpty = false := by simpa using hnames
  have hfirst : f.directories.find? (Convention.ofSettings s).admits = some service ↔
      s.NamesService service ∧ ∃ before after, f.directories = before ++ service :: after ∧
        ∀ directory ∈ before, ¬ s.NamesService directory := by
    simp only [List.find?_eq_some_iff_append, Bool.not_eq_true', ← Bool.not_eq_true,
      ScanSettings.admits_iff]
  rw [service?, ← hfirst, ← s.sourceRootNames_eq_pieces, ← Text.occursIn_iff, hempty,
    Bool.false_or]
  by_cases hinside : Text.occursIn s.sourceRootNames f.directories = true
  · simp [hinside]
  · simp [hinside]

namespace FileTree

variable {t : FileTree} {s : ScanSettings} {root : String} {place : Location}

/-- The files of a directory are found at their places. -/
theorem IsWalked.mem_sourceFiles (h : t.IsWalked root place) (honce : t.ListsOnce)
    (hignore : s.effectiveRespectIgnoreFiles = false) {file : SourceFile} :
    file ∈ (t.sourceFiles s root).data ↔
      file.base = root ∧ ∃ directories name, file.relative = directories ++ [name] ∧
        t.node? (place ++ file.relative) = some (.file file.content) ∧
        s.admitsName name = true ∧ file.content.size ≤ s.effectiveMaxFileSize.toNat := by
  rw [h.data_sourceFiles hignore, List.mem_map]
  constructor
  · rintro ⟨⟨l, content⟩, hmem, rfl⟩
    obtain ⟨hsource, hsize⟩ := List.mem_filter.mp hmem
    obtain ⟨hfile, hname⟩ := List.mem_filter.mp hsource
    obtain ⟨hentry, hbelow⟩ := mem_filesBelow.mp hfile
    obtain ⟨r, hr, rfl⟩ := isBelow_iff.mp hbelow
    obtain ⟨directories, name, rfl⟩ := (List.eq_nil_or_concat' r).resolve_left hr
    rw [SourceFile.seenFrom_append]
    refine ⟨rfl, directories, name, rfl, (honce.node?_eq_some_iff (by simp)).mpr hentry, ?_, ?_⟩
    · simpa using hname
    · simpa [ScanSettings.exceeds] using hsize
  · obtain ⟨base, relative, content⟩ := file
    rintro ⟨rfl, directories, name, rfl, hnode, hname, hsize⟩
    refine ⟨(place ++ (directories ++ [name]), content), ?_, SourceFile.seenFrom_append ..⟩
    have hentry := (honce.node?_eq_some_iff (by simp)).mp hnode
    have hbelow : isBelow place (place ++ (directories ++ [name])) = true :=
      isBelow_iff.mpr ⟨_, by simp, rfl⟩
    rw [List.mem_filter, sourcesBelow, List.mem_filter, mem_filesBelow]
    exact ⟨⟨⟨hentry, hbelow⟩, by simpa using hname⟩, by simpa [ScanSettings.exceeds] using hsize⟩

/-- The files of a directory come in the order of their locations, each once. -/
theorem IsWalked.pairwise_sourceFiles (h : t.IsWalked root place) (honce : t.ListsOnce)
    (hignore : s.effectiveRespectIgnoreFiles = false) :
    (t.sourceFiles s root).data.Pairwise fun f g =>
      f.relative.map FileName.bytes < g.relative.map FileName.bytes := by
  rw [h.data_sourceFiles hignore, List.pairwise_map]
  have hsorted := (pairwise_filesBelow t place).and (honce.nodup_filesBelow place)
  refine List.Pairwise.sublist (List.filter_sublist.trans List.filter_sublist) ?_
  refine hsorted.imp_of_mem ?_
  rintro ⟨l, content⟩ ⟨m, other⟩ hf hg ⟨hle, hne⟩
  obtain ⟨hentry, hbelow⟩ := mem_filesBelow.mp hf
  obtain ⟨hentry', hbelow'⟩ := mem_filesBelow.mp hg
  obtain ⟨r, -, rfl⟩ := isBelow_iff.mp hbelow
  obtain ⟨r', -, rfl⟩ := isBelow_iff.mp hbelow'
  rw [SourceFile.seenFrom_append, SourceFile.seenFrom_append]
  rw [le_append] at hle
  refine map_bytes_lt hle ?_
  rintro rfl
  -- one place has one content
  obtain rfl := FileNode.file.inj (honce.node_unique hentry hentry')
  exact hne rfl

/-- What is listed under a service are the files that belong to it. -/
theorem mem_services {service : String} {files : List SourceFile} :
    (service, files) ∈ (t.services s root).data ↔
      files ≠ [] ∧ files = (t.sourceFiles s root).data.filter (·.service? s == some service) := by
  have hlisted : service ∈ sortStrings
      (((t.sourceFiles s root).data.filterMap (·.service? s)).eraseDups) ↔
        (t.sourceFiles s root).data.filter (·.service? s == some service) ≠ [] := by
    rw [(sortStrings_perm _).mem_iff, List.mem_eraseDups, List.mem_filterMap, ne_eq,
      List.filter_eq_nil_iff]
    simp
  rw [services, List.mem_map]
  constructor
  · rintro ⟨name, hname, hpair⟩
    obtain ⟨rfl, rfl⟩ := Prod.ext_iff.mp hpair
    exact ⟨hlisted.mp hname, rfl⟩
  · rintro ⟨hne, rfl⟩
    exact ⟨service, hlisted.mpr hne, rfl⟩

theorem mem_files_services {service : String} {file : SourceFile} :
    (∃ files, (service, files) ∈ (t.services s root).data ∧ file ∈ files) ↔
      file ∈ (t.sourceFiles s root).data ∧ file.service? s = some service := by
  constructor
  · rintro ⟨files, hentry, hfile⟩
    obtain ⟨-, rfl⟩ := mem_services.mp hentry
    obtain ⟨hmem, hservice⟩ := List.mem_filter.mp hfile
    exact ⟨hmem, beq_iff_eq.mp hservice⟩
  · rintro ⟨hmem, hservice⟩
    have hfile : file ∈ (t.sourceFiles s root).data.filter (·.service? s == some service) :=
      List.mem_filter.mpr ⟨hmem, beq_iff_eq.mpr hservice⟩
    exact ⟨_, mem_services.mpr ⟨List.ne_nil_of_mem hfile, rfl⟩, hfile⟩

/-- The services come in the order of their names, each once. -/
theorem pairwise_services (t : FileTree) (s : ScanSettings) (root : String) :
    (t.services s root).data.Pairwise fun a b => Text.bytes a.1 < Text.bytes b.1 := by
  rw [services, List.pairwise_map]
  have hstrict := (pairwise_sortStrings
    ((t.sourceFiles s root).data.filterMap (·.service? s)).eraseDups).and
      (nodup_sortStrings (nodup_eraseDups _))
  exact hstrict.imp fun h => Text.bytes_lt (lt_of_le_of_ne h.1 h.2)

/-- No two of the listed files stand in one place, under one service or under two. -/
theorem nodup_relative_services
    (hsorted : (t.sourceFiles s root).data.Pairwise fun f g =>
      f.relative.map FileName.bytes < g.relative.map FileName.bytes) :
    (((t.services s root).data.flatMap (·.2)).map (·.relative)).Nodup := by
  rw [List.Nodup, List.pairwise_map, List.pairwise_flatMap]
  constructor
  · rintro ⟨service, files⟩ hentry
    obtain ⟨-, rfl⟩ := mem_services.mp hentry
    refine (hsorted.filter _).imp ?_
    rintro f g hlt hsame
    rw [hsame] at hlt
    exact List.lt_irrefl _ hlt
  · refine (pairwise_services t s root).imp_of_mem ?_
    rintro ⟨service, files⟩ ⟨other, others⟩ hentry hentry' hlt f hf g hg hsame
    obtain ⟨-, rfl⟩ := mem_services.mp hentry
    obtain ⟨-, rfl⟩ := mem_services.mp hentry'
    have hservice := beq_iff_eq.mp (List.mem_filter.mp hf).2
    have hother := beq_iff_eq.mp (List.mem_filter.mp hg).2
    -- the location alone decides to which service a file belongs
    have hagree : f.service? s = g.service? s := by
      rw [SourceFile.service?, SourceFile.service?, SourceFile.directories, SourceFile.directories,
        hsame]
    obtain rfl : service = other := Option.some.inj (hservice.symm.trans (hagree.trans hother))
    exact List.lt_irrefl _ hlt

/-- A file below a directory is listed under a service exactly if it belongs to it by its own name,
its size and the directories above it whose names are texts. -/
theorem IsWalked.mem_files_services_iff (h : t.IsWalked root place) (honce : t.ListsOnce)
    (hroot : s.sourceRootNames ≠ []) (hignore : s.effectiveRespectIgnoreFiles = false)
    {service : String} {file : SourceFile} :
    (∃ files, (service, files) ∈ (t.services s root).data ∧ file ∈ files) ↔
      file.base = root ∧ ∃ directories name, file.relative = directories ++ [name] ∧
        t.node? (place ++ file.relative) = some (.file file.content) ∧
        s.Attributes service (directories.filterMap FileName.text?) name file.content := by
  rw [mem_files_services, h.mem_sourceFiles honce hignore, SourceFile.service?_eq_some_iff hroot]
  constructor
  · rintro ⟨⟨hbase, directories, name, hrelative, hnode, hname, hsize⟩, hinside, hnamed, hfirst⟩
    rw [SourceFile.directories_of_relative hrelative] at hinside hfirst
    exact ⟨hbase, directories, name, hrelative, hnode,
      ScanSettings.admitsName_iff.mp hname, hsize, hinside, hnamed, hfirst⟩
  · rintro ⟨hbase, directories, name, hrelative, hnode, hattributes⟩
    rw [SourceFile.directories_of_relative hrelative]
    exact ⟨⟨hbase, directories, name, hrelative, hnode,
      ScanSettings.admitsName_iff.mpr hattributes.extension, hattributes.size⟩,
      hattributes.sourceRoot, hattributes.named, hattributes.first⟩

/-- No service is found from the standard input. -/
theorem data_services_standardInput (t : FileTree) (s : ScanSettings)
    (hroot : Path.isStandardInput root = true) : (t.services s root).data = [] := by
  have hsources : (t.sourceFiles s root).data = [] := by rw [sourceFiles, if_pos hroot]
  rw [List.eq_nil_iff_forall_not_mem]
  rintro ⟨service, files⟩ hentry
  obtain ⟨hne, hfiles⟩ := mem_services.mp hentry
  exact hne (by rw [hfiles, hsources, List.filter_nil])

/-- A file below a directory is listed under a service exactly if it has the extension of the
settings and a size that they admit, their source root stands among the directories above it, and
the service is the first of these that names one; of these directories only those count whose names
are texts, and the path must not stand for the standard input. A file is listed once; the services
come in the order of their names, and the files of each in the order of their locations, names
compared bytewise. -/
theorem discovery_partitions_sources (t : FileTree) (s : Settings) (root : String)
    (place : Location) (htree : t.ListsOnce) (hvalid : s.fault? = none)
    (hignore : s.scan.effectiveRespectIgnoreFiles = false)
    (hlocated : t.locate true root = .ok place) (hdirectory : t.node? place = some .directory) :
    let found := (t.services s.scan root).data
    (∀ service file, (∃ files, (service, files) ∈ found ∧ file ∈ files) ↔
      Path.isStandardInput root = false ∧ file.base = root ∧
      ∃ directories name, file.relative = directories ++ [name] ∧
        t.node? (place ++ file.relative) = some (.file file.content) ∧
        s.scan.Attributes service (directories.filterMap FileName.text?) name file.content) ∧
    ((found.flatMap (·.2)).map (·.relative)).Nodup ∧
    (found.map fun entry => Text.bytes entry.1).Pairwise (· < ·) ∧
    ∀ entry ∈ found, entry.2 ≠ [] ∧
      (entry.2.map fun file => file.relative.map FileName.bytes).Pairwise (· < ·) := by
  have hnames := ScanSettings.sourceRootNames_ne_nil (ScanSettings.sourceRootPath_ne_empty hvalid)
  cases hinput : Path.isStandardInput root with
  | true => simp [data_services_standardInput t s.scan hinput]
  | false =>
    have hroot : t.IsWalked root place := ⟨hlocated, hdirectory, hinput⟩
    have hsorted := hroot.pairwise_sourceFiles htree hignore
    refine ⟨fun service file => ?_, nodup_relative_services hsorted, ?_, ?_⟩
    · rw [hroot.mem_files_services_iff htree hnames hignore]
      exact (and_iff_right rfl).symm
    · exact List.pairwise_map.mpr (pairwise_services t s.scan root)
    · rintro ⟨service, files⟩ hentry
      obtain ⟨hne, rfl⟩ := mem_services.mp hentry
      exact ⟨hne, List.pairwise_map.mpr (hsorted.filter _)⟩

/-- A file inside of two service directories is listed under the outer one only. -/
theorem discovery_partitions_sources_nested :
    let found := (Analysis.nestedTree.services Analysis.nestedSettings.scan ".").data
    let file : SourceFile := ⟨".", ["ts-a-service", "src", "main", "ts-b-service", "A.java"],
      "class A \x7b\x7d".toUTF8⟩
    (∃ files, ("ts-a-service", files) ∈ found ∧ file ∈ files) ∧
      ¬ ∃ files, ("ts-b-service", files) ∈ found ∧ file ∈ files := by
  obtain ⟨hlisted, -⟩ := discovery_partitions_sources Analysis.nestedTree Analysis.nestedSettings
    "." [] (by decide) (by decide) rfl (isWalked_here rfl).located rfl
  have houter : Analysis.nestedSettings.scan.NamesService "ts-a-service" :=
    ⟨by decide, by decide⟩
  constructor
  · rw [hlisted]
    refine ⟨rfl, rfl, ["ts-a-service", "src", "main", "ts-b-service"], "A.java", rfl, rfl, ?_⟩
    have hsegments : Path.pieces Analysis.nestedSettings.scan.effectiveSourceRoot =
        ["src", "main"] := by decide
    refine ⟨⟨by decide, Text.bytes "A", by decide, by decide⟩, by decide, ?_, houter, [], _, rfl,
      by simp⟩
    rw [hsegments]
    exact ⟨["ts-a-service"], ["ts-b-service"], rfl⟩
  · rw [hlisted]
    rintro ⟨-, -, directories, name, hrelative, -, hattributes⟩
    obtain ⟨before, after, hsplit, hbefore⟩ := hattributes.first
    have hdirectories := congrArg List.dropLast hrelative
    rw [List.dropLast_concat] at hdirectories
    rw [← hdirectories] at hsplit
    cases before with
    | nil => simp [FileName.text?] at hsplit
    | cons directory before =>
      have hhead : "ts-a-service" = directory := (List.cons.inj hsplit).1
      exact hbefore directory (by simp) (hhead ▸ houter)

/-- A tree with one file and the directories above it. -/
def withFile (place : Location) (content : ByteArray) : FileTree where
  entries := (place.inits.drop 1).dropLast.map (·, .directory) ++ [(place, .file content)]

/-- A source file in a directory whose name is not a text, which parts the source root. -/
def partedFile : SourceFile where
  base := "."
  relative := ["ts-a-service", "src", .raw ⟨#[255]⟩ (by decide), "main", "java", "A.java"]
  content := "class A \x7b\x7d".toUTF8

/-- A source file below a directory with the name of the standard input. -/
def dashFile : SourceFile where
  base := "-"
  relative := ["ts-a-service", "src", "main", "java", "A.java"]
  content := "class A \x7b\x7d".toUTF8

def partedTree : FileTree :=
  withFile partedFile.relative partedFile.content

def dashTree : FileTree :=
  withFile ("-" :: dashFile.relative) dashFile.content

/-- A file is listed though the names of the source root have another one between them, which is not
a text; and a file inside a source root is not listed, since the path of the directory stands for
the standard input. -/
theorem discovery_passes_over_names :
    ((∃ files, ("ts-a-service", files) ∈ (partedTree.services {} ".").data ∧ partedFile ∈ files) ∧
      ¬ (Path.pieces ({} : ScanSettings).effectiveSourceRoot).map FileName.text <:+:
        partedFile.relative) ∧
    dashTree.locate true "-" = .ok ["-"] ∧ dashTree.node? ["-"] = some .directory ∧
    dashTree.node? ("-" :: dashFile.relative) = some (.file dashFile.content) ∧
    ({} : ScanSettings).Attributes "ts-a-service" ["ts-a-service", "src", "main", "java"]
      "A.java" dashFile.content ∧
    (dashTree.services {} "-").data = [] := by
  have hattributes : ({} : ScanSettings).Attributes "ts-a-service"
      ["ts-a-service", "src", "main", "java"] "A.java" "class A \x7b\x7d".toUTF8 := by
    have hsegments : Path.pieces ({} : ScanSettings).effectiveSourceRoot =
        ["src", "main", "java"] := by decide
    refine ⟨⟨by decide, Text.bytes "A", by decide, by decide⟩, by decide, ?_,
      ⟨by decide, by decide⟩, [], _, rfl, by simp⟩
    rw [hsegments]
    exact ⟨["ts-a-service"], [], rfl⟩
  have hdirectory : dashTree.node? ["-"] = some .directory := rfl
  refine ⟨⟨?_, by decide⟩, locate_name (by decide) rfl (by simp [hdirectory]) true, hdirectory, rfl,
    hattributes, data_services_standardInput _ _ (by decide)⟩
  rw [(isWalked_here rfl).mem_files_services_iff (by decide) (by decide) rfl]
  exact ⟨rfl, _, _, List.dropLast_concat_getLast (by decide) |>.symm, rfl, hattributes⟩

end FileTree

end ServiceChains
