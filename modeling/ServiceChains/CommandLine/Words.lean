/-!
# Words of a command line

A command line is read in levels: the words before the name of a command, and those behind it. On
each level there are options and further words. An option has a long name after two dashes and
perhaps a letter after one. Letters may be put together behind one dash. The value of an option
stands in the next word, behind an equals sign, or directly behind its letter. Behind two lone
dashes all words are taken as they are.
-/
namespace ServiceChains.CommandLine

/-- Why a command line is not carried out: it is wrong, or it only asks for a text about the
program. -/
inductive Stop where
  | usage
  | information
  deriving DecidableEq, Repr

/-- What an option does. -/
inductive OptionKind where
  /-- takes a value that has to pass a test -/
  | value (admits : String → Bool)
  /-- is given once or not at all -/
  | switch
  /-- may be repeated -/
  | count
  /-- asks for a text about the program -/
  | information

/-- An option of a level. -/
structure OptionRule where
  name : String
  letter : Option Char
  kind : OptionKind

/-- What may stand on a level. -/
structure Level where
  options : List OptionRule
  commands : List String
  /-- how many words there may be that are neither options nor commands -/
  wordLimit : Nat

/-- What was read on a level. -/
structure Given where
  values : List (String × String) := []
  switches : List String := []
  words : List String := []
  deriving DecidableEq, Repr

namespace Given

/-- The value of an option. -/
def value? (g : Given) (name : String) : Option String :=
  g.values.lookup name

/-- Was an option without value given? -/
def has (g : Given) (name : String) : Bool :=
  g.switches.contains name

/-- Adds the value of an option, once. -/
def addValue (g : Given) (o : OptionRule) (value : String) : Except Stop Given :=
  match o.kind with
  | .value admits =>
    if (g.value? o.name).isNone && admits value then
      .ok { g with values := g.values ++ [(o.name, value)] }
    else .error .usage
  | _ => .error .usage

/-- Adds an option without value. -/
def addSwitch (g : Given) (o : OptionRule) : Except Stop Given :=
  match o.kind with
  | .value _ => .error .usage
  | .switch =>
    if g.has o.name then .error .usage else .ok { g with switches := o.name :: g.switches }
  | .count => .ok { g with switches := o.name :: g.switches }
  | .information => .error .information

/-- Adds a word that is neither option nor command. -/
def addWord (g : Given) (l : Level) (word : String) : Except Stop Given :=
  if word.isEmpty || l.wordLimit ≤ g.words.length then .error .usage
  else .ok { g with words := g.words ++ [word] }

end Given

/-- Does an option take a value? -/
def OptionRule.takesValue (o : OptionRule) : Bool :=
  match o.kind with
  | .value _ => true
  | _ => false

/-- Is a word read as an option? A lone dash is not. -/
def isOption (word : String) : Bool :=
  match word.toList with
  | '-' :: _ :: _ => true
  | _ => false

namespace Level

/-- Reads an option behind two dashes. The answer names the option whose value is still to come. -/
def readLong (l : Level) (g : Given) (cs : List Char) : Except Stop (Given × Option OptionRule) :=
  let name := String.ofList (cs.takeWhile (· != '='))
  match l.options.find? (·.name == name), cs.dropWhile (· != '=') with
  | none, _ => .error .usage
  | some o, '=' :: value => (g.addValue o (String.ofList value)).map (·, none)
  | some o, _ => if o.takesValue then .ok (g, some o) else (g.addSwitch o).map (·, none)

/-- Reads letters behind one dash. The answer names the option whose value is still to come. -/
def readLetters (l : Level) (g : Given) : List Char → Except Stop (Given × Option OptionRule)
  | [] => .ok (g, none)
  | c :: cs =>
    match l.options.find? (·.letter == some c) with
    | none => .error .usage
    | some o =>
      if o.takesValue then
        match cs with
        | [] => .ok (g, some o)
        | '=' :: value => (g.addValue o (String.ofList value)).map (·, none)
        | value => (g.addValue o (String.ofList value)).map (·, none)
      else
        match g.addSwitch o with
        | .error e => .error e
        | .ok g => l.readLetters g cs

/-- Reads a word that is an option. -/
def readOption (l : Level) (g : Given) (word : String) : Except Stop (Given × Option OptionRule) :=
  match word.toList with
  | '-' :: '-' :: cs => l.readLong g cs
  | _ :: cs => l.readLetters g cs
  | [] => .error .usage

/-- Reads the words of a level, up to a command if there is one. -/
def read (l : Level) (g : Given) (words : List String) :
    Except Stop (Given × Option (String × List String)) :=
  match words with
  | [] => .ok (g, none)
  | word :: rest =>
    if word = "--" then (rest.foldlM (fun g word => Given.addWord g l word) g).map (·, none)
    else if isOption word then
      match l.readOption g word with
      | .error e => .error e
      | .ok (g, none) => l.read g rest
      | .ok (g, some o) =>
        match rest with
        | [] => .error .usage
        | value :: rest =>
          if isOption value then .error .usage
          else
            match g.addValue o value with
            | .error e => .error e
            | .ok g => l.read g rest
    else if l.commands.contains word then .ok (g, some (word, rest))
    else
      match g.addWord l word with
      | .error e => .error e
      | .ok g => l.read g rest
termination_by words.length

end Level

end ServiceChains.CommandLine
