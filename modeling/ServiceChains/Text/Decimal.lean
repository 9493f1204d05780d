/-!
# Decimal numbers

Numbers are written without sign, without leading zeros and without grouping. A number read from a
setting may carry one plus sign and leading zeros, and has to fit into 64 bits.
-/
namespace ServiceChains.Text

/-- The character of a digit below ten. -/
def digitChar (d : Nat) : Char :=
  Char.ofNat (48 + d)

/-- The value of a decimal digit. -/
def digitValue (c : Char) : Nat :=
  c.toNat - 48

/-- The decimal digits of a number, most significant first. -/
def digits (n : Nat) : List Char :=
  if n < 10 then [digitChar n] else digits (n / 10) ++ [digitChar (n % 10)]
termination_by n

/-- The number that a run of digits denotes in a base. -/
def ofDigits (base : Nat) (value : Char → Nat) (cs : List Char) : Nat :=
  cs.foldl (fun n c => n * base + value c) 0

/-- The decimal text of a number. -/
def decimal (n : Nat) : String :=
  String.ofList (digits n)

/-- The number that a nonempty run of decimal digits denotes, if it fits into 64 bits. -/
def readDigits? (cs : List Char) : Option UInt64 :=
  let n := ofDigits 10 digitValue cs
  if !cs.isEmpty && cs.all Char.isDigit && n < UInt64.size then some (UInt64.ofNat n) else none

/-- Reads a 64-bit number with an optional plus sign. -/
def readNumber? (s : String) : Option UInt64 :=
  match s.toList with
  | '+' :: cs => readDigits? cs
  | cs => readDigits? cs

end ServiceChains.Text
