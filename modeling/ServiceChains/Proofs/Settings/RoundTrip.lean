import ServiceChains.Proofs.Settings.Layers
import ServiceChains.Proofs.Toml.Document

/-!
# Settings files can be read back

Settings are written as a document of three tables, each with a line for every key that is set. That
works unless a number is larger than a TOML integer can be. What is written is read back as the same
settings, whatever characters their texts have: the value under each key is that of its line, and a
key without a line stays unset.
-/
namespace ServiceChains

open Toml

namespace Settings

section Lines

/-- A number that is set can be written as a TOML integer. -/
def Fits (value : Option UInt64) : Prop :=
  ∀ n ∈ value, n.toNat ≤ 2 ^ 63 - 1

/-- The field of a text. -/
def textField (key : String) (value : Option String) (bare : IsBare key := by decide) : Field where
  key := key
  cell? := value.map fun text => ⟨(quoted text).toList, .string text, spells_quoted text⟩
  bare := bare

/-- The field of a number. -/
def countField (key : String) (value : Option UInt64) (bare : IsBare key := by decide) : Field where
  key := key
  cell? := value.bind fun n =>
    if hn : n.toNat < integerBound then
      some ⟨(Text.decimal n.toNat).toList, .integer n.toNat, spells_decimal n.toNat hn⟩
    else none
  bare := bare

/-- The field of a truth value. -/
def boolField (key : String) (value : Option Bool) (bare : IsBare key := by decide) : Field where
  key := key
  cell? := value.map fun b => ⟨(if b then "true" else "false").toList, .bool b, spells_bool b⟩
  bare := bare

theorem toList_line (key value : String) : (line key value).toList = lineText key value.toList := by
  simp [line, lineText]

variable {key : String} (hkey : IsBare key)

theorem toList_textLine (value : Option String) :
    (textLine key value).toList = (textField key value hkey).text := by
  cases value with
  | none => rfl
  | some text => exact toList_line key (quoted text)

theorem toList_boolLine (value : Option Bool) :
    (boolLine key value).toList = (boolField key value hkey).text := by
  cases value with
  | none => rfl
  | some b => exact toList_line key _

theorem fits_some_iff (n : UInt64) : Fits (some n) ↔ n.toNat < integerBound := by
  simp only [Fits, Option.mem_some_iff, forall_eq', integerBound]
  omega

theorem countLine?_eq_some_iff (value : Option UInt64) (text : String) :
    countLine? key value = some text ↔
      Fits value ∧ text.toList = (countField key value hkey).text := by
  cases value with
  | none =>
    have hfield : (countField key none hkey).text = "".toList := rfl
    rw [countLine?, hfield, String.toList_inj, Option.some_inj]
    exact ⟨fun h => ⟨nofun, h.symm⟩, fun h => h.2.symm⟩
  | some n =>
    rw [fits_some_iff]
    by_cases hn : n.toNat < integerBound
    · have hfield : (countField key (some n) hkey).text =
          (line key (Text.decimal n.toNat)).toList := by
        simp [countField, Field.text, hn, toList_line]
      rw [countLine?, if_pos hn, hfield, String.toList_inj, Option.some_inj]
      exact ⟨fun h => ⟨hn, h.symm⟩, fun h => h.2.symm⟩
    · simp [countLine?, hn]

theorem setting?_textField (value : Option String) :
    setting? text? (textField key value hkey).value? = some value := by
  cases value with
  | none => rfl
  | some text => rfl

theorem setting?_boolField (value : Option Bool) :
    setting? bool? (boolField key value hkey).value? = some value := by
  cases value with
  | none => rfl
  | some b => rfl

theorem setting?_countField {value : Option UInt64} (hfits : Fits value) :
    setting? count? (countField key value hkey).value? = some value := by
  cases value with
  | none => rfl
  | some n =>
    have hn := (fits_some_iff n).mp hfits
    have hsize : n.toNat < UInt64.size := n.toNat_lt
    simp [countField, Field.value?, hn, setting?, count?, hsize]

theorem setting?_policyField (value : Option Policy) :
    setting? policy? (textField key (value.map Policy.name) hkey).value? = some value := by
  cases value with
  | none => rfl
  | some p => exact congrArg (Option.map some) (Policy.ofName?_name p)

end Lines

end Settings

/-- The values of a table are those of its fields. -/
theorem Toml.Group.values?_entries (g : Group) :
    (Toml.table .header g.entries).values? (g.fields.map Field.key) =
      some (g.fields.map Field.value?) := by
  rw [values?, List.map_map]
  exact congrArg some (List.map_congr_left fun f hf => lookup_filterMap_entry? g.distinct hf)

namespace ScanSettings

open Settings

/-- The table of the settings. -/
def toGroup (s : ScanSettings) : Group where
  name := "scan"
  fields := [
    textField "source_root" s.sourceRoot,
    textField "source_extension" s.sourceExtension,
    textField "endpoint_file_suffix" s.endpointFileSuffix,
    textField "excluded_file_marker" s.excludedFileMarker,
    textField "service_prefix" s.servicePrefix,
    textField "service_suffix" s.serviceSuffix,
    countField "max_file_size" s.maxFileSize,
    countField "threads" s.threads,
    boolField "respect_gitignore" s.respectIgnoreFiles]
  bare := by decide
  distinct := (by decide : keys.Nodup)

theorem ofToml?_toGroup {s : ScanSettings} (hsize : Fits s.maxFileSize) (hthreads : Fits s.threads) :
    ofToml? (.table .header s.toGroup.entries) = some s := by
  have hvalues : (Toml.table .header s.toGroup.entries).values? keys =
      some (s.toGroup.fields.map Field.value?) := s.toGroup.values?_entries
  rw [ofToml?, hvalues]
  simp [toGroup, setting?_textField, setting?_countField _ hsize, setting?_countField _ hthreads,
    setting?_boolField]

end ScanSettings

namespace MatchingSettings

open Settings

/-- The table of the settings. -/
def toGroup (s : MatchingSettings) : Group where
  name := "matching"
  fields := [textField "policy" (s.policy.map Policy.name)]
  bare := by decide
  distinct := (by decide : keys.Nodup)

theorem ofToml?_toGroup (s : MatchingSettings) :
    ofToml? (.table .header s.toGroup.entries) = some s := by
  have hvalues : (Toml.table .header s.toGroup.entries).values? keys =
      some (s.toGroup.fields.map Field.value?) := s.toGroup.values?_entries
  rw [ofToml?, hvalues]
  simp [toGroup, setting?_policyField]

end MatchingSettings

namespace OutputSettings

open Settings

/-- The table of the settings. -/
def toGroup (s : OutputSettings) : Group where
  name := "output"
  fields := [
    textField "analyzed_services_file" s.analyzedServicesFile,
    textField "interactions_file" s.interactionsFile,
    textField "chains_file" s.chainsFile]
  bare := by decide
  distinct := (by decide : keys.Nodup)

theorem ofToml?_toGroup (s : OutputSettings) :
    ofToml? (.table .header s.toGroup.entries) = some s := by
  have hvalues : (Toml.table .header s.toGroup.entries).values? keys =
      some (s.toGroup.fields.map Field.value?) := s.toGroup.values?_entries
  rw [ofToml?, hvalues]
  simp [toGroup, setting?_textField]

end OutputSettings

namespace Settings

variable {s : Settings} {text : String}

/-- The tables of the settings. -/
def toGroups (s : Settings) : List Group :=
  [s.scan.toGroup, s.matching.toGroup, s.output.toGroup]

/-- Settings whose numbers fit can be written. -/
theorem exists_toToml?_eq_some (hsize : Fits s.scan.maxFileSize) (hthreads : Fits s.scan.threads) :
    ∃ text, s.toToml? = some text := by
  have hsizeLine := (countLine?_eq_some_iff (by decide : IsBare "max_file_size") _ _).mpr
    ⟨hsize, String.toList_ofList⟩
  have hthreadsLine := (countLine?_eq_some_iff (by decide : IsBare "threads") _ _).mpr
    ⟨hthreads, String.toList_ofList⟩
  rw [toToml?, hsizeLine, hthreadsLine]
  exact ⟨_, rfl⟩

/-- Settings that are written have numbers that fit, and the text is that of their tables. -/
theorem toList_of_toToml? (h : s.toToml? = some text) :
    Fits s.scan.maxFileSize ∧ Fits s.scan.threads ∧ text.toList = documentText s.toGroups := by
  simp only [toToml?, Option.bind_eq_bind, Option.bind_eq_some_iff] at h
  obtain ⟨size, hsizeLine, threads, hthreadsLine, htext⟩ := h
  obtain ⟨hsize, hsizeText⟩ := (countLine?_eq_some_iff (by decide) _ _).mp hsizeLine
  obtain ⟨hthreads, hthreadsText⟩ := (countLine?_eq_some_iff (by decide) _ _).mp hthreadsLine
  refine ⟨hsize, hthreads, ?_⟩
  obtain rfl := Option.some.inj htext
  simp [toGroups, documentText, Group.text, headerText, ScanSettings.toGroup,
    MatchingSettings.toGroup, OutputSettings.toGroup, ← hsizeText, ← hthreadsText,
    ← toList_textLine, ← toList_boolLine]

/-- The tables of settings are read as these settings. -/
theorem ofToml?_of_toList_eq (hsize : Fits s.scan.maxFileSize) (hthreads : Fits s.scan.threads)
    (htext : text.toList = documentText s.toGroups) : ofToml? text = some s := by
  have hnames : (s.toGroups.map Group.name).Nodup :=
    (by decide : ["scan", "matching", "output"].Nodup)
  have hparse : parse? text = some (s.toGroups.map Group.entry) := parse?_of_toList_eq hnames htext
  rw [ofToml?, hparse]
  have hscan : (s.toGroups.map Group.entry).lookup "scan" =
      some (.table .header s.scan.toGroup.entries) := rfl
  have hmatching : (s.toGroups.map Group.entry).lookup "matching" =
      some (.table .header s.matching.toGroup.entries) := rfl
  have houtput : (s.toGroups.map Group.entry).lookup "output" =
      some (.table .header s.output.toGroup.entries) := rfl
  simp [hscan, hmatching, houtput, ScanSettings.ofToml?_toGroup hsize hthreads,
    MatchingSettings.ofToml?_toGroup, OutputSettings.ofToml?_toGroup]

theorem render_eq_ok_iff : s.render = .ok text ↔ s.toToml? = some text := by
  unfold render
  cases s.toToml? with
  | none => simp
  | some written => simp

theorem parse_of_ofToml? (hread : ofToml? text = some s) (hvalid : s.IsValid) (name : String) :
    parse name text = .ok s := by
  rw [parse, hread]
  rcases s.validated_cases with ⟨-, hok⟩ | ⟨hnot, -⟩
  · exact hok
  · exact absurd hvalid hnot

/-- Settings can be written if and only if their numbers fit into TOML integers. What is written says
the same about every setting when it is read, and it is accepted if the settings are valid. -/
theorem render_reads_back (s : Settings) (name : String) :
    ((∃ text, s.render = .ok text) ↔ Fits s.scan.maxFileSize ∧ Fits s.scan.threads) ∧
      ∀ text, s.render = .ok text →
        ofToml? text = some s ∧ (s.IsValid → parse name text = .ok s) := by
  simp only [render_eq_ok_iff]
  refine ⟨⟨?_, ?_⟩, ?_⟩
  · rintro ⟨text, htext⟩
    obtain ⟨hsize, hthreads, -⟩ := toList_of_toToml? htext
    exact ⟨hsize, hthreads⟩
  · rintro ⟨hsize, hthreads⟩
    exact exists_toToml?_eq_some hsize hthreads
  · intro text htext
    obtain ⟨hsize, hthreads, hlist⟩ := toList_of_toToml? htext
    have hread : ofToml? text = some s := ofToml?_of_toList_eq hsize hthreads hlist
    exact ⟨hread, fun hvalid => parse_of_ofToml? hread hvalid name⟩

/-- Texts that need each way of quoting, with the largest number that fits. One more does not. -/
theorem render_reads_back_quoted :
    let s : Settings :=
      { scan := { sourceRoot := some "\n'''\"\"\"\r\\", sourceExtension := some "\"\u0000'",
                  serviceSuffix := some "''\n", maxFileSize := some 9223372036854775807 }
        matching := { policy := some .longestPrefix }
        output := { chainsFile := some "a\\b'c" } }
    let larger : Settings := { s with scan := { s.scan with threads := some 9223372036854775808 } }
    s.IsValid ∧ (∃ text, s.render = .ok text ∧ parse "<string>" text = .ok s) ∧
      ¬ ∃ text, larger.render = .ok text := by
  intro s larger
  have hvalid : s.IsValid := by
    rw [← fault?_eq_none_iff]
    decide +kernel
  have hfits : Fits s.scan.maxFileSize ∧ Fits s.scan.threads := by
    constructor
    · rintro n ⟨⟩
      decide
    · rintro n ⟨⟩
  obtain ⟨hwritten, hread⟩ := render_reads_back s "<string>"
  obtain ⟨text, htext⟩ := hwritten.mpr hfits
  refine ⟨hvalid, ⟨text, htext, (hread text htext).2 hvalid⟩, ?_⟩
  rw [(render_reads_back larger "<string>").1]
  rintro ⟨-, hthreads⟩
  have hle := hthreads 9223372036854775808 rfl
  revert hle
  decide

end Settings

end ServiceChains
