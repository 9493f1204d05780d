import ServiceChains.CommandLine.Words
import ServiceChains.Matching
import ServiceChains.Text.Decimal

/-!
# Invocations

There are four commands. Each takes the directory to analyze, by default the working directory. Some
options may stand before or behind the name of the command; behind it they count more.
-/
namespace ServiceChains.CommandLine

/-- What the program is asked to do. -/
inductive Command where
  /-- collect the interactions of the services that are listed -/
  | interactions (root : String) (services output : Option String)
  /-- trace chains from the calls in an artifact -/
  | chains (root : String) (interactions output : Option String)
  /-- both of these -/
  | run (root : String)
  /-- compare the artifacts -/
  | compare (root : String) (chains interactions : Option String) (json : Bool)
  deriving DecidableEq, Repr

/-- A command with the options of all commands. -/
structure Invocation where
  config : Option String
  policy : Option Policy
  threads : Option UInt64
  command : Command
  deriving DecidableEq, Repr

/-- An option with a path. -/
def pathOption (name : String) (letter : Option Char) : OptionRule :=
  ⟨name, letter, .value (!·.isEmpty)⟩

/-- The options of all commands. -/
def sharedOptions : List OptionRule :=
  [pathOption "config" none,
    ⟨"policy", none, .value fun text => (Policy.parse text).isOk⟩,
    ⟨"threads", none, .value fun text => (Text.readNumber? text).isSome⟩,
    ⟨"verbose", some 'v', .count⟩,
    ⟨"quiet", some 'q', .count⟩,
    ⟨"help", some 'h', .information⟩]

/-- The names of the commands. -/
def commandNames : List String :=
  ["interactions", "chains", "run", "compare"]

/-- The words before the name of the command. -/
def topLevel : Level where
  options := sharedOptions ++ [⟨"version", some 'V', .information⟩]
  commands := "help" :: commandNames
  wordLimit := 0

/-- The options of one command only. -/
def ownOptions (command : String) : List OptionRule :=
  if command = "interactions" then [pathOption "services" none, pathOption "output" (some 'o')]
  else if command = "chains" then [pathOption "interactions" none, pathOption "output" (some 'o')]
  else if command = "compare" then
    [pathOption "chains" none, pathOption "interactions" none, ⟨"json", none, .switch⟩]
  else []

/-- The words behind the name of a command. -/
def commandLevel (command : String) : Level where
  options := ownOptions command ++ sharedOptions
  commands := []
  wordLimit := 1

/-- Is the program asked to say both more and less? -/
def isContradictory (g : Given) : Bool :=
  g.has "verbose" && g.has "quiet"

/-- The command with this name. -/
def Command.ofGiven (command : String) (g : Given) : Command :=
  let root := g.words.head?.getD "."
  if command = "interactions" then .interactions root (g.value? "services") (g.value? "output")
  else if command = "chains" then .chains root (g.value? "interactions") (g.value? "output")
  else if command = "compare" then
    .compare root (g.value? "chains") (g.value? "interactions") (g.has "json")
  else .run root

/-- The words behind `help` name at most one command. -/
def readHelp (words : List String) : Stop :=
  match words with
  | [] => .information
  | [word] => if topLevel.commands.contains word then .information else .usage
  | _ => .usage

/-- Reads a command line. -/
def Invocation.parse (words : List String) : Except Stop Invocation :=
  match topLevel.read {} words with
  | .error e => .error e
  | .ok (_, none) => .error .usage
  | .ok (top, some (command, rest)) =>
    if command = "help" then .error (readHelp rest)
    else
      match (commandLevel command).read {} rest with
      | .error e => .error e
      | .ok (own, _) =>
        if isContradictory own || isContradictory top then .error .usage
        else
          let shared (name : String) : Option String := (own.value? name).or (top.value? name)
          .ok {
            config := shared "config"
            policy := (shared "policy").bind fun text => (Policy.parse text).toOption
            threads := (shared "threads").bind Text.readNumber?
            command := .ofGiven command own }

end ServiceChains.CommandLine
