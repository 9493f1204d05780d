import ServiceChains.Analysis
import ServiceChains.CommandLine.Invocation
import ServiceChains.Settings.Load

/-!
# The program

An invocation is carried out on a file tree. It ends with a status: zero if all went well, one if
compared artifacts disagree, two if the invocation or the analysis failed. A sum of counts that is too
large for a word stops the program with a status of its own. Paths on the command line are relative
to the working directory, those in settings to the directory that is analyzed.
-/
namespace ServiceChains.CommandLine

/-- The version of the program. -/
def version : String :=
  "0.1.0"

/-- Why an invocation failed. -/
inductive Failure where
  | config (cause : ConfigError)
  | analysis (cause : AnalysisError)
  deriving DecidableEq, Repr

namespace Failure

def code : Failure → String
  | config cause => cause.code
  | analysis cause => cause.code

def message : Failure → String
  | config cause => cause.message
  | analysis cause => cause.message

def display (f : Failure) : String :=
  displayError f.code f.message

end Failure

/-- How an invocation ended. -/
structure Ending where
  status : UInt8
  output : String := ""
  failure : Option Failure := none
  warnings : List AnalysisError := []

namespace Ending

/-- All went well, except for errors that were reported. -/
def success (warnings : List AnalysisError) : Ending :=
  { status := 0, warnings }

/-- The invocation failed. -/
def failed (f : Failure) : Ending :=
  { status := 2, failure := some f }

/-- The program was stopped. -/
def stopped : Ending :=
  { status := 101 }

/-- The end of an invocation that wrote a result. -/
def ofWrite (warnings : List AnalysisError) : Except AnalysisError Unit × FileTree →
    Ending × FileTree
  | (.ok (), t) => (success warnings, t)
  | (.error e, t) => (failed (.analysis e), t)

/-- The end of a comparison. -/
def ofReport (json : Bool) (r : ConsistencyReport) : Ending where
  status := if r.isConsistent then 0 else 1
  output := if json then r.toJson.render ++ "\n" else r.render

end Ending

/-- A path of the command line as an absolute path. -/
def absolute (t : FileTree) (path : String) : String :=
  Path.join (FileTree.pathOf t.workingDirectory) path

/-- The directory that a command analyzes. -/
def Command.root : Command → String
  | interactions root .. | chains root .. | run root | compare root .. => root

/-- The settings that a command line gives. -/
def Invocation.overrides (i : Invocation) (t : FileTree) : Overrides :=
  let shared : Overrides := { policy := i.policy, threads := i.threads }
  match i.command with
  | .interactions _ services output =>
    { shared with
      analyzedServicesFile := services.map (absolute t)
      interactionsFile := output.map (absolute t) }
  | .chains _ interactions output =>
    { shared with
      interactionsFile := interactions.map (absolute t)
      chainsFile := output.map (absolute t) }
  | .run _ => shared
  | .compare _ chains interactions _ =>
    { shared with
      interactionsFile := interactions.map (absolute t)
      chainsFile := chains.map (absolute t) }

/-- The settings of an invocation. -/
def Invocation.settings (i : Invocation) (t : FileTree) (env : Environment) :
    Except ConfigError Settings :=
  match i.config with
  | some path => Settings.loadFile t path env (i.overrides t)
  | none => Settings.load t i.command.root env (i.overrides t)

/-- Carries out a command with settings. -/
def Command.execute (c : Command) (s : Settings) (t : FileTree) : Ending × FileTree :=
  match c with
  | .interactions root .. =>
    match Analysis.interactions t s root with
    | .error e => (.failed (.analysis e), t)
    | .ok found =>
      Ending.ofWrite found.errors
        (Artifact.write (s.output.interactionsPath root) found.data.toJson t)
  | .chains root .. =>
    match Analysis.chainsOfArtifact t s root with
    | .error e => (.failed (.analysis e), t)
    | .ok found =>
      Ending.ofWrite found.errors (Artifact.write (s.output.chainsPath root) found.data.toJson t)
  | .run root =>
    match Analysis.run t s root with
    | .error e => (.failed (.analysis e), t)
    | .ok found => Ending.ofWrite found.errors (Analysis.writeResults s root found.data t)
  | .compare root _ _ json =>
    match Analysis.compare t s root with
    | .error e => (.failed (.analysis e), t)
    | .ok none => (.stopped, t)
    | .ok (some report) => (.ofReport json report, t)

/-- Carries out an invocation. -/
def Invocation.execute (i : Invocation) (env : Environment) (t : FileTree) : Ending × FileTree :=
  match i.settings t env with
  | .error e => (.failed (.config e), t)
  | .ok s => i.command.execute s t

/-- Carries out a command line. -/
def execute (words : List String) (env : Environment) (t : FileTree) : Ending × FileTree :=
  match Invocation.parse words with
  | .error .usage => ({ status := 2 }, t)
  | .error .information => ({ status := 0 }, t)
  | .ok i => i.execute env t

end ServiceChains.CommandLine
