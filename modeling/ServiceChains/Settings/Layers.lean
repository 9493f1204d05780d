import ServiceChains.Settings

/-!
# Layers of settings

Three layers lie above the defaults: the settings of a file, those of the environment, and those of
the command line, the last being the uppermost. In the environment a number or a policy that cannot
be read counts as unset.
-/
namespace ServiceChains

/-- The environment: texts under names. -/
abbrev Environment := List (String × String)

/-- The names under which the environment gives settings. -/
def Environment.names : List String :=
  ["MESHTRACE_SCAN_SOURCE_ROOT", "MESHTRACE_SCAN_SERVICE_PREFIX", "MESHTRACE_SCAN_SERVICE_SUFFIX",
    "MESHTRACE_SCAN_MAX_FILE_SIZE", "MESHTRACE_SCAN_THREADS", "MESHTRACE_MATCHING_POLICY"]

/-- The settings that the environment gives. -/
def Environment.settings (env : Environment) : Settings where
  scan :=
    { sourceRoot := env.lookup "MESHTRACE_SCAN_SOURCE_ROOT"
      servicePrefix := env.lookup "MESHTRACE_SCAN_SERVICE_PREFIX"
      serviceSuffix := env.lookup "MESHTRACE_SCAN_SERVICE_SUFFIX"
      maxFileSize := (env.lookup "MESHTRACE_SCAN_MAX_FILE_SIZE").bind Text.readNumber?
      threads := (env.lookup "MESHTRACE_SCAN_THREADS").bind Text.readNumber? }
  matching :=
    { policy := (env.lookup "MESHTRACE_MATCHING_POLICY").bind fun text =>
        (Policy.parse text).toOption }

/-- The settings that a command line may give. -/
structure Overrides where
  policy : Option Policy := none
  threads : Option UInt64 := none
  maxFileSize : Option UInt64 := none
  analyzedServicesFile : Option String := none
  interactionsFile : Option String := none
  chainsFile : Option String := none
  deriving DecidableEq, Repr

/-- Overrides as a layer of settings. -/
def Overrides.settings (o : Overrides) : Settings where
  scan := { maxFileSize := o.maxFileSize, threads := o.threads }
  matching := { policy := o.policy }
  output :=
    { analyzedServicesFile := o.analyzedServicesFile
      interactionsFile := o.interactionsFile
      chainsFile := o.chainsFile }

/-- The settings of all layers together, given those of the file. -/
def Settings.layered (file : Settings) (env : Environment) (o : Overrides) : Settings :=
  o.settings.overlay (env.settings.overlay file)

end ServiceChains
