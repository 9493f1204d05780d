import ServiceChains.Text.Cursor

/-!
# Comments and literals of a source text

Each character of a source text belongs to the code, to a comment or to the inside of a literal. A
literal ends at its own quote or at the end of its line; a backslash keeps the next character
inside. The quotes themselves, and the line break that ends an open literal, belong to the code.

Blanking overwrites comments, and on demand the insides of literals, with as many spaces as they
have bytes. Line breaks of comments are kept, so byte offsets and lines stay as they are.
-/
namespace ServiceChains.Source

/-- What a character of a source text belongs to. -/
inductive Region where
  | code
  | comment
  | literal
  deriving DecidableEq, Repr

/-- Where the reading of a source text stands. -/
inductive Mode where
  | code
  /-- in a comment that ends with the line -/
  | lineComment
  /-- behind the slash that opens a comment -/
  | opening
  /-- in a comment that ends with a star and a slash -/
  | blockComment
  /-- before the slash that closes a comment -/
  | closing
  /-- in a literal that this quote ends -/
  | literal (quote : Char)
  /-- behind a backslash in a literal that this quote ends -/
  | escaped (quote : Char)
  deriving DecidableEq, Repr

/-- The region of a character and the mode behind it, given the mode before it and what follows it.
-/
def step (mode : Mode) (c : Char) (next : Option Char) : Region × Mode :=
  match mode with
  | .code =>
    if c = '/' ∧ next = some '/' then (.comment, .lineComment)
    else if c = '/' ∧ next = some '*' then (.comment, .opening)
    else if c = '"' ∨ c = '\'' then (.code, .literal c)
    else (.code, .code)
  | .lineComment => if c = '\n' then (.code, .code) else (.comment, .lineComment)
  | .opening => (.comment, .blockComment)
  | .blockComment =>
    if c = '*' ∧ next = some '/' then (.comment, .closing) else (.comment, .blockComment)
  | .closing => (.comment, .code)
  | .literal quote =>
    if c = quote ∨ c = '\n' then (.code, .code)
    else if c = '\\' then (.literal, .escaped quote)
    else (.literal, .literal quote)
  | .escaped quote => (.literal, .literal quote)

/-- Labels a text from a given mode on; `done` holds the earlier characters, last first. -/
def labelFrom (mode : Mode) (done : List (Char × Region)) : List Char → List (Char × Region)
  | [] => done.reverse
  | c :: cs =>
    let (region, mode) := step mode c cs.head?
    labelFrom mode ((c, region) :: done) cs

/-- Each character of a source text with its region. -/
def label (source : List Char) : List (Char × Region) :=
  labelFrom .code [] source

/-- Is a character of this region overwritten? -/
def isBlanked (literals : Bool) (c : Char) : Region → Bool
  | .code => false
  | .comment => c != '\n'
  | .literal => literals

/-- A character as it stands in the blanked text. -/
def blankChar (literals : Bool) : Char × Region → List Char
  | (c, region) => if isBlanked literals c region then List.replicate c.utf8Size ' ' else [c]

/-- The source with its comments overwritten, and with the insides of its literals as well if
`literals` is set. -/
def blank (literals : Bool) (source : List Char) : List Char :=
  (label source).flatMap (blankChar literals)

end ServiceChains.Source
