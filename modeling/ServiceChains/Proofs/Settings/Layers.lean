import Mathlib
import ServiceChains.Proofs.Artifact
import ServiceChains.Settings.Load

/-!
# Settings are resolved one by one

There are thirteen settings. Six of them have a variable in the environment and six may be given on
the command line. Each setting is resolved on its own: the command line comes first, then a variable
whose text can be read, then the file. Only what results from that has to be valid, so what a layer
says about a setting does not matter once a layer above it gives that setting.
-/
namespace ServiceChains

open Text

/-- A setting, by the type of its values. -/
inductive Setting : Type → Type
  | sourceRoot : Setting String
  | sourceExtension : Setting String
  | endpointFileSuffix : Setting String
  | excludedFileMarker : Setting String
  | servicePrefix : Setting String
  | serviceSuffix : Setting String
  | maxFileSize : Setting UInt64
  | threads : Setting UInt64
  | respectIgnoreFiles : Setting Bool
  | policy : Setting Policy
  | analyzedServicesFile : Setting String
  | interactionsFile : Setting String
  | chainsFile : Setting String

/-- What a record of settings says about one of them. -/
def Settings.value (s : Settings) {α : Type} : Setting α → Option α
  | .sourceRoot => s.scan.sourceRoot
  | .sourceExtension => s.scan.sourceExtension
  | .endpointFileSuffix => s.scan.endpointFileSuffix
  | .excludedFileMarker => s.scan.excludedFileMarker
  | .servicePrefix => s.scan.servicePrefix
  | .serviceSuffix => s.scan.serviceSuffix
  | .maxFileSize => s.scan.maxFileSize
  | .threads => s.scan.threads
  | .respectIgnoreFiles => s.scan.respectIgnoreFiles
  | .policy => s.matching.policy
  | .analyzedServicesFile => s.output.analyzedServicesFile
  | .interactionsFile => s.output.interactionsFile
  | .chainsFile => s.output.chainsFile

/-- A variable of the environment, and how its text is read. -/
structure Variable (α : Type) where
  name : String
  read : String → Option α

namespace Setting

variable {α β : Type}

/-- The variable that gives a setting, if it has one. -/
def variableOf? : Setting α → Option (Variable α)
  | sourceRoot => some ⟨"MESHTRACE_SCAN_SOURCE_ROOT", some⟩
  | servicePrefix => some ⟨"MESHTRACE_SCAN_SERVICE_PREFIX", some⟩
  | serviceSuffix => some ⟨"MESHTRACE_SCAN_SERVICE_SUFFIX", some⟩
  | maxFileSize => some ⟨"MESHTRACE_SCAN_MAX_FILE_SIZE", readNumber?⟩
  | threads => some ⟨"MESHTRACE_SCAN_THREADS", readNumber?⟩
  | policy => some ⟨"MESHTRACE_MATCHING_POLICY", fun text => (Policy.parse text).toOption⟩
  | _ => none

/-- Where the command line gives a setting, if it can. -/
def flag? : Setting α → Option (Overrides → Option α)
  | policy => some Overrides.policy
  | threads => some Overrides.threads
  | maxFileSize => some Overrides.maxFileSize
  | analyzedServicesFile => some Overrides.analyzedServicesFile
  | interactionsFile => some Overrides.interactionsFile
  | chainsFile => some Overrides.chainsFile
  | _ => none

/-- What the environment says about a setting. A text that cannot be read says nothing. -/
def fromEnvironment (env : Environment) (k : Setting α) : Option α :=
  k.variableOf?.bind fun v => (env.lookup v.name).bind v.read

/-- What the command line says about a setting. -/
def fromOverrides (o : Overrides) (k : Setting α) : Option α :=
  k.flag?.bind fun given => given o

/-- What all layers together say about a setting: the uppermost that gives it decides. -/
def resolve (file : Settings) (env : Environment) (o : Overrides) (k : Setting α) : Option α :=
  (k.fromOverrides o).or ((k.fromEnvironment env).or (file.value k))

theorem or_congr_of_none {x y z : Option α} (h : x = none → y = z) : x.or y = x.or z := by
  cases x with
  | none => rw [h rfl]
  | some _ => rfl

/-- What the file says matters only where the layers above say nothing. -/
theorem resolve_congr_file {file file' : Settings} {env : Environment} {o : Overrides}
    {k : Setting α} (h : k.fromOverrides o = none → k.fromEnvironment env = none →
      file'.value k = file.value k) : k.resolve file' env o = k.resolve file env o :=
  or_congr_of_none fun hover => or_congr_of_none (h hover)

/-- What the environment says matters only where the command line says nothing. -/
theorem resolve_congr_environment {file : Settings} {env env' : Environment} {o : Overrides}
    {k : Setting α} (h : k.fromOverrides o = none →
      k.fromEnvironment env' = k.fromEnvironment env) :
    k.resolve file env' o = k.resolve file env o :=
  or_congr_of_none fun hover => by rw [h hover]

/-- A variable belongs to one setting, so two settings with one variable read it alike. -/
theorem read_eq_none_of_name_eq {k : Setting α} {k' : Setting β} {v : Variable α} {v' : Variable β}
    (hv : k.variableOf? = some v) (hv' : k'.variableOf? = some v') (hname : v'.name = v.name)
    {text : String} (htext : v.read text = none) : v'.read text = none := by
  cases k <;> cases hv <;> cases k' <;> cases hv' <;> simp_all

end Setting

/-- The environment without the variables of a name. -/
def Environment.without (env : Environment) (name : String) : Environment :=
  env.filter fun entry => entry.1 != name

theorem Environment.lookup_without (env : Environment) (name other : String) :
    (env.without name).lookup other = if other = name then none else env.lookup other := by
  rw [without, lookup_filter_key (· != name)]
  by_cases h : other = name <;> simp [h]

/-- A variable whose text cannot be read is as good as unset. -/
theorem Setting.fromEnvironment_without {α β : Type} {env : Environment} {k : Setting α}
    {v : Variable α} {text : String} (hv : k.variableOf? = some v)
    (hset : env.lookup v.name = some text) (htext : v.read text = none) (other : Setting β) :
    other.fromEnvironment (env.without v.name) = other.fromEnvironment env := by
  unfold fromEnvironment
  cases hother : other.variableOf? with
  | none => rfl
  | some w =>
    simp only [Option.bind_some, Environment.lookup_without]
    by_cases hname : w.name = v.name
    · rw [if_pos hname, hname, hset, Option.bind_some,
        read_eq_none_of_name_eq hv hother hname htext, Option.bind_none]
    · rw [if_neg hname]

namespace Settings

open Setting

/-- Settings that say the same about everything are the same. -/
theorem ext_value {s s' : Settings} (h : ∀ {α : Type} (k : Setting α), s.value k = s'.value k) :
    s = s' := by
  obtain ⟨⟨_, _, _, _, _, _, _, _, _⟩, ⟨_⟩, ⟨_, _, _⟩⟩ := s
  obtain ⟨⟨_, _, _, _, _, _, _, _, _⟩, ⟨_⟩, ⟨_, _, _⟩⟩ := s'
  congr
  · exact h sourceRoot
  · exact h sourceExtension
  · exact h endpointFileSuffix
  · exact h excludedFileMarker
  · exact h servicePrefix
  · exact h serviceSuffix
  · exact h maxFileSize
  · exact h threads
  · exact h respectIgnoreFiles
  · exact h policy
  · exact h analyzedServicesFile
  · exact h interactionsFile
  · exact h chainsFile

theorem value_overlay (s below : Settings) {α : Type} (k : Setting α) :
    (s.overlay below).value k = (s.value k).or (below.value k) := by
  cases k <;> rfl

theorem value_environment (env : Environment) {α : Type} (k : Setting α) :
    env.settings.value k = k.fromEnvironment env := by
  cases k <;> simp [value, fromEnvironment, variableOf?, Environment.settings]

theorem value_overrides (o : Overrides) {α : Type} (k : Setting α) :
    o.settings.value k = k.fromOverrides o := by
  cases k <;> rfl

theorem value_layered (file : Settings) (env : Environment) (o : Overrides) {α : Type}
    (k : Setting α) : (file.layered env o).value k = k.resolve file env o := by
  rw [layered, value_overlay, value_overlay, value_overrides, value_environment, resolve]

/-- The effective values can be used: the source root and the extension are more than slashes and
leading dots, files may have a size, and the names of services begin or end with something. -/
structure IsValid (s : Settings) : Prop where
  sourceRoot : trimSlashes s.scan.effectiveSourceRoot.toList ≠ []
  sourceExtension : s.scan.effectiveSourceExtension.toList.dropWhile (· == '.') ≠ []
  maxFileSize : s.scan.effectiveMaxFileSize ≠ 0
  serviceNames : ¬ (s.scan.effectiveServicePrefix = "" ∧ s.scan.effectiveServiceSuffix = "")

theorem fault?_eq_none_iff (s : Settings) : s.fault? = none ↔ s.IsValid := by
  have hdots : ∀ cs : List Char, cs.all (· == '.') = true ↔ cs.dropWhile (· == '.') = [] := by
    intro cs
    rw [List.dropWhile_eq_nil_iff, List.all_eq_true]
  unfold fault?
  constructor
  · intro h
    split_ifs at h with hroot hextension hsize hnames
    refine ⟨?_, ?_, ?_, ?_⟩
    · simpa using hroot
    · rwa [hdots] at hextension
    · simpa using hsize
    · simpa using hnames
  · intro h
    rw [if_neg (by simpa using h.sourceRoot), if_neg (by rw [hdots]; exact h.sourceExtension),
      if_neg (by simpa using h.maxFileSize), if_neg (by simpa using h.serviceNames)]

theorem exists_invalid_of_fault? {s : Settings} {e : ConfigError} (h : s.fault? = some e) :
    ∃ field reason, e = .invalid field reason := by
  unfold fault? at h
  split_ifs at h <;> cases h <;> exact ⟨_, _, rfl⟩

/-- Valid settings pass and others are refused. -/
theorem validated_cases (s : Settings) :
    (s.IsValid ∧ s.validated = .ok s) ∨
      (¬ s.IsValid ∧ ∃ field reason, s.validated = .error (.invalid field reason)) := by
  rw [← fault?_eq_none_iff, validated]
  cases hfault : s.fault? with
  | none => exact .inl ⟨rfl, rfl⟩
  | some e =>
    obtain ⟨field, reason, rfl⟩ := exists_invalid_of_fault? hfault
    exact .inr ⟨nofun, field, reason, rfl⟩

/-- Only what the layers together say about each setting matters. -/
theorem finish_congr {file file' : Settings} {env env' : Environment} {o o' : Overrides}
    (h : ∀ {α : Type} (k : Setting α), k.resolve file' env' o' = k.resolve file env o) :
    finish file' env' o' = finish file env o := by
  have hsame : file'.layered env' o' = file.layered env o := by
    apply ext_value
    intro α k
    rw [value_layered, value_layered, h]
  rw [finish, finish, hsame]

/-- A way to load settings, given those of the file: from a file that is named, from the settings file
of a directory, or for a directory without a settings file, which sets nothing. -/
inductive Loads (file : Settings) : (Environment → Overrides → Except ConfigError Settings) → Prop
  | named {t : FileTree} {path text : String} : t.text? path = some text →
      ofToml? text = some file → Loads file (loadFile t path)
  | found {t : FileTree} {root text : String} : t.text? (Path.join root fileName) = some text →
      ofToml? text = some file → Loads file (load t root)
  | absent {t : FileTree} {root : String} : t.find? (Path.join root fileName) = none →
      file = {} → Loads file (load t root)

theorem loadFile_eq_finish {t : FileTree} {path text : String} {file : Settings}
    (htext : t.text? path = some text) (hfile : ofToml? text = some file) (env : Environment)
    (o : Overrides) : loadFile t path env o = finish file env o := by
  simp only [loadFile, htext, hfile]

theorem Loads.eq_finish {file : Settings}
    {run : Environment → Overrides → Except ConfigError Settings} (h : Loads file run)
    (env : Environment) (o : Overrides) : run env o = finish file env o := by
  cases h with
  | named htext hfile => exact loadFile_eq_finish htext hfile env o
  | @found t root text htext hfile =>
    have hthere : (t.find? (Path.join root fileName)).isSome = true := by
      rw [FileTree.text?, FileTree.bytes?] at htext
      cases hfind : t.find? (Path.join root fileName) with
      | none => simp [hfind] at htext
      | some node => rfl
    rw [load, if_pos hthere]
    exact loadFile_eq_finish htext hfile env o
  | absent hfree hfile =>
    subst hfile
    simp [load, hfree]

/-- Loading resolves each setting on its own, and succeeds exactly if the outcome is valid. -/
theorem load_resolves_each_setting {file : Settings}
    {run : Environment → Overrides → Except ConfigError Settings} (hrun : Loads file run)
    (env : Environment) (o : Overrides) :
    ∃ s : Settings,
      (∀ {α : Type} (k : Setting α), s.value k = k.resolve file env o) ∧
      ((s.IsValid ∧ run env o = .ok s) ∨
        (¬ s.IsValid ∧ ∃ field reason, run env o = .error (.invalid field reason))) ∧
      -- What nothing above the file can give is as the file has it.
      (∀ {α : Type} (k : Setting α), k.flag? = none → k.variableOf? = none →
        s.value k = file.value k) ∧
      -- What is replaced does not matter, be it a value of the file or of the environment.
      (∀ {file' : Settings} {run' : Environment → Overrides → Except ConfigError Settings},
        Loads file' run' →
        (∀ {α : Type} (k : Setting α), k.fromOverrides o = none → k.fromEnvironment env = none →
          file'.value k = file.value k) →
        run' env o = run env o) ∧
      (∀ env' : Environment,
        (∀ {α : Type} (k : Setting α), k.fromOverrides o = none →
          k.fromEnvironment env' = k.fromEnvironment env) →
        run env' o = run env o) ∧
      -- A variable that cannot be read is passed over.
      (∀ {α : Type} (k : Setting α) (v : Variable α) (text : String), k.variableOf? = some v →
        env.lookup v.name = some text → v.read text = none →
        s.value k = (k.fromOverrides o).or (file.value k) ∧
          run env o = run (env.without v.name) o) := by
  refine ⟨file.layered env o, value_layered file env o, ?_, ?_, ?_, ?_, ?_⟩
  · rw [hrun.eq_finish]
    exact validated_cases _
  · intro α k hflag hvariable
    simp [value_layered, resolve, fromOverrides, fromEnvironment, hflag, hvariable]
  · intro file' run' hrun' hfile
    rw [hrun.eq_finish, hrun'.eq_finish]
    exact finish_congr fun k => resolve_congr_file (hfile k)
  · intro env' henv
    rw [hrun.eq_finish, hrun.eq_finish]
    exact finish_congr fun k => resolve_congr_environment (henv k)
  · intro α k v text hv hset htext
    have hunset : k.fromEnvironment env = none := by
      simp [fromEnvironment, hv, hset, htext]
    refine ⟨?_, ?_⟩
    · rw [value_layered, resolve, hunset, Option.none_or]
    · rw [hrun.eq_finish, hrun.eq_finish]
      apply finish_congr
      intro β other
      rw [resolve, resolve, fromEnvironment_without hv hset htext]

/-- A settings file with a source root that cannot be used. -/
def sampleFile : String :=
  "[scan]\nsource_root = \"/\"\nthreads = 3\nservice_suffix = \"\"\n"

/-- Two values that can be read, one of which cannot be used, and one that cannot be read. -/
def sampleEnvironment : Environment :=
  [("MESHTRACE_SCAN_SOURCE_ROOT", "app"), ("MESHTRACE_SCAN_MAX_FILE_SIZE", "0"),
    ("MESHTRACE_SCAN_THREADS", "many")]

/-- What cannot be used in the file and in the environment is replaced, and the number that cannot be
read leaves that of the file. -/
theorem load_resolves_each_setting_replaced :
    let t : FileTree := { entries := [(["app.toml"], .file sampleFile.toUTF8)] }
    let file : Settings :=
      { scan := { sourceRoot := some "/", threads := some 3, serviceSuffix := some "" } }
    let s : Settings :=
      { scan := { sourceRoot := some "app", maxFileSize := some 10, threads := some 3,
                  serviceSuffix := some "" } }
    Loads file (loadFile t "app.toml") ∧ ¬ file.IsValid ∧
      loadFile t "app.toml" sampleEnvironment { maxFileSize := some 10 } = .ok s ∧
      loadFile t "app.toml" (sampleEnvironment.without "MESHTRACE_SCAN_THREADS")
        { maxFileSize := some 10 } = .ok s := by
  intro t file s
  have hname : Path.Names "app.toml" "app.toml" := by decide
  have htext : t.text? "app.toml" = some sampleFile := by
    rw [FileTree.text?, FileTree.bytes?_name hname rfl rfl]
    exact Text.fromUTF8?_toUTF8 sampleFile
  have hfile : ofToml? sampleFile = some file := by decide +kernel
  have hload : Loads file (loadFile t "app.toml") := .named htext hfile
  have hvalid : s.IsValid := by
    rw [← fault?_eq_none_iff]
    decide +kernel
  obtain ⟨s', hvalues, hcases, _, _, _, hunread⟩ :=
    load_resolves_each_setting hload sampleEnvironment { maxFileSize := some 10 }
  have hsame : s' = s := by
    apply ext_value
    intro α k
    rw [hvalues]
    cases k <;> decide +kernel
  have hok : loadFile t "app.toml" sampleEnvironment { maxFileSize := some 10 } = .ok s := by
    rw [hsame] at hcases
    rcases hcases with ⟨_, hok⟩ | ⟨hnot, _⟩
    · exact hok
    · exact absurd hvalid hnot
  refine ⟨hload, ?_, hok, ?_⟩
  · rw [← fault?_eq_none_iff]
    decide +kernel
  · rw [← (hunread threads _ "many" rfl rfl (by decide)).2]
    exact hok

end Settings

end ServiceChains
