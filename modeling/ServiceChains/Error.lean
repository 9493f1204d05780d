import ServiceChains.Text.Decimal

/-!
# Errors

What can go wrong, by cause: in the settings, in a path template, while files are looked up, and in
an analysis as a whole. Each error has a stable code and a wording; `display` joins the two.
-/
namespace ServiceChains

/-- The text shown for an error with a code and a wording. -/
def displayError (code message : String) : String :=
  "[" ++ code ++ "] " ++ message

/-- Settings that cannot be used. -/
inductive ConfigError where
  | notFound (path : String)
  | malformed (path reason : String)
  | invalid (field reason : String)
  | badValue (field reason : String)
  deriving DecidableEq, Repr

namespace ConfigError

def code (_ : ConfigError) : String :=
  "CONFIG_ERROR"

def message : ConfigError → String
  | notFound path => "Config file not found: " ++ path
  | malformed path reason => "Config parse error in " ++ path ++ ": " ++ reason
  | invalid field reason => "Config validation failed for " ++ field ++ ": " ++ reason
  | badValue field reason => "Invalid config value for " ++ field ++ ": " ++ reason

def display (e : ConfigError) : String :=
  displayError e.code e.message

end ConfigError

/-- A pattern or a path template that cannot be used. -/
inductive ExtractionError where
  | badPattern (name reason : String)
  | badTemplate (template reason : String)
  deriving DecidableEq, Repr

namespace ExtractionError

def code (_ : ExtractionError) : String :=
  "EXTRACTION_ERROR"

def message : ExtractionError → String
  | badPattern name reason => "Invalid pattern " ++ name ++ ": " ++ reason
  | badTemplate template reason => "Invalid path template " ++ template ++ ": " ++ reason

def display (e : ExtractionError) : String :=
  displayError e.code e.message

end ExtractionError

/-- A file or a directory that cannot be used. -/
inductive ScanError where
  | unreadable (path reason : String)
  | missing (path : String)
  | walkFailed (root reason : String)
  | tooLarge (path : String) (size max : Nat)
  deriving DecidableEq, Repr

namespace ScanError

def code : ScanError → String
  | missing _ => "MISSING_INPUT"
  | _ => "SCAN_ERROR"

def message : ScanError → String
  | unreadable path reason => "IO error scanning " ++ path ++ ": " ++ reason
  | missing path => "Required input not found: " ++ path
  | walkFailed root reason => "Walk error under " ++ root ++ ": " ++ reason
  | tooLarge path size max =>
    "File too large: " ++ path ++ " (" ++ Text.decimal size ++ " bytes, max " ++ Text.decimal max
      ++ ")"

def display (e : ScanError) : String :=
  displayError e.code e.message

end ScanError

/-- What can go wrong in an analysis. -/
inductive AnalysisError where
  | scan (cause : ScanError)
  | extraction (cause : ExtractionError)
  | config (cause : ConfigError)
  | artifactRead (path reason : String)
  | artifactWrite (path reason : String)
  deriving DecidableEq, Repr

namespace AnalysisError

def code : AnalysisError → String
  | scan cause => cause.code
  | extraction cause => cause.code
  | config cause => cause.code
  | artifactRead .. | artifactWrite .. => "ARTIFACT_ERROR"

def message : AnalysisError → String
  | scan cause => "Scan error: " ++ cause.message
  | extraction cause => "Extraction error: " ++ cause.message
  | config cause => "Configuration error: " ++ cause.message
  | artifactRead path reason => "Failed to read artifact " ++ path ++ ": " ++ reason
  | artifactWrite path reason => "Failed to write artifact " ++ path ++ ": " ++ reason

def display (e : AnalysisError) : String :=
  displayError e.code e.message

end AnalysisError

end ServiceChains
