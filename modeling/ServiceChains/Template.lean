import ServiceChains.Error

/-!
# Path templates

A template is a path in which a placeholder, from an opening brace to the next closing brace, stands
for one nonempty segment without a slash. Everything else stands for itself. A path fits a template
when it is its literals with a segment for each placeholder, with at most one further slash in front
and at most one behind.

A template is compiled to a list of marks. A path is checked one character at a time: `derive`
answers what may follow once a character has been read, as a list of alternatives.
-/
namespace ServiceChains.Template

/-- What a compiled template demands next. -/
inductive Mark where
  /-- exactly this character -/
  | one (c : Char)
  /-- a segment that has not begun -/
  | segment
  /-- the remainder of a segment that has begun -/
  | within
  /-- a slash or nothing -/
  | slash
  deriving DecidableEq, Repr

/-- Cuts a template at its placeholders into its literals; `inside` tells whether a placeholder is
open, `current` holds the literal read so far, last character first. Refuses an open placeholder at
the end. -/
def cutFrom (inside : Bool) (current : List Char) : List Char → Option (List (List Char))
  | [] => if inside then none else some [current.reverse]
  | c :: cs =>
    if inside then
      if c = '}' then cutFrom false [] cs else cutFrom true [] cs
    else if c = '{' then (cutFrom true [] cs).map (current.reverse :: ·)
    else cutFrom false (c :: current) cs

/-- The literals of a template, one more than it has placeholders. -/
def literals? (template : List Char) : Option (List (List Char)) :=
  cutFrom false [] template

/-- The marks of a list of literals with a segment between any two of them. -/
def marksBetween : List (List Char) → List Mark
  | [] => []
  | [literal] => literal.map .one
  | literal :: rest => literal.map .one ++ .segment :: marksBetween rest

/-- The marks of a template: its literals and segments between two optional slashes. -/
def compile (template : String) : Except ExtractionError (List Mark) :=
  match literals? template.toList with
  | none => .error (.badTemplate template "unterminated path variable")
  | some literals => .ok (.slash :: marksBetween literals ++ [.slash])

/-- What may follow after the character `c` has been read. -/
def derive (c : Char) : List Mark → List (List Mark)
  | [] => []
  | .one d :: rest => if c = d then [rest] else []
  | .segment :: rest => if c = '/' then [] else [.within :: rest]
  | .within :: rest => (if c = '/' then [] else [.within :: rest]) ++ derive c rest
  | .slash :: rest => (if c = '/' then [rest] else []) ++ derive c rest

/-- May the path end here? -/
def mayEnd : List Mark → Bool
  | [] => true
  | .one _ :: _ => false
  | .segment :: _ => false
  | .within :: rest => mayEnd rest
  | .slash :: rest => mayEnd rest

/-- All alternatives after one more character. -/
def advance (states : List (List Mark)) (c : Char) : List (List Mark) :=
  (states.flatMap (derive c)).eraseDups

/-- Does a path fit the compiled template? -/
def accepts (marks : List Mark) (path : List Char) : Bool :=
  (path.foldl advance [marks]).any mayEnd

end ServiceChains.Template
