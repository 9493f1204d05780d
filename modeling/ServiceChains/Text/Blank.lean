/-!
# Blanks and trimming

A blank is a character with the Unicode property White_Space. Trimming removes the characters of a
given class from the ends of a text and leaves its inside alone.
-/
namespace ServiceChains.Text

/-- A character with the property White_Space. -/
def isBlank (c : Char) : Bool :=
  let n := c.toNat
  (9 ≤ n && n ≤ 13) || n == 0x20 || n == 0x85 || n == 0xA0 || n == 0x1680 ||
    (0x2000 ≤ n && n ≤ 0x200A) || n == 0x2028 || n == 0x2029 || n == 0x202F || n == 0x205F ||
    n == 0x3000

/-- Drops the characters of class `p` from the end. -/
def dropEndWhile (p : Char → Bool) (cs : List Char) : List Char :=
  (cs.reverse.dropWhile p).reverse

/-- Drops the characters of class `p` from both ends. -/
def stripWhile (p : Char → Bool) (cs : List Char) : List Char :=
  dropEndWhile p (cs.dropWhile p)

/-- The text without the blanks at its ends. -/
def trim (cs : List Char) : List Char :=
  stripWhile isBlank cs

/-- The text without the slashes at its ends. -/
def trimSlashes (cs : List Char) : List Char :=
  stripWhile (· == '/') cs

/-- A string without the blanks at its ends. -/
def trimmed (s : String) : String :=
  String.ofList (trim s.toList)

/-- A string without the slashes at its ends. -/
def withoutOuterSlashes (s : String) : String :=
  String.ofList (trimSlashes s.toList)

/-- Does the list `part` occur somewhere in a list, without gaps? -/
def occursIn {α : Type} [BEq α] (part : List α) : List α → Bool
  | [] => part.isEmpty
  | c :: cs => part.isPrefixOf (c :: cs) || occursIn part cs

end ServiceChains.Text
