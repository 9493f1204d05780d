import ServiceChains.Json.Record
import ServiceChains.Proofs.Json.Quoted
import ServiceChains.Proofs.Text.Decimal

/-!
# Strings and numbers can be read back

A quoted string is read back with its text, since no character is half of a surrogate pair. A decimal
number is read back in front of anything that does not continue it.
-/
namespace ServiceChains.Json

open Text

theorem isHighHalf_toNat (c : Char) : isHighHalf c.toNat = false := by
  have hvalid := c.valid
  simp only [isHighHalf, Bool.and_eq_false_iff, decide_eq_false_iff_not, Char.toNat]
  rcases hvalid with h | h
  · omega
  · omega

theorem isLowHalf_toNat (c : Char) : isLowHalf c.toNat = false := by
  have hvalid := c.valid
  simp only [isLowHalf, Bool.and_eq_false_iff, decide_eq_false_iff_not, Char.toNat]
  rcases hvalid with h | h
  · omega
  · omega

theorem textOfUnits?_map_toNat (cs : List Char) : textOfUnits? (cs.map Char.toNat) = some cs := by
  induction cs with
  | nil => rfl
  | cons c cs ih =>
    cases cs with
    | nil => simp [textOfUnits?, isHighHalf_toNat, isLowHalf_toNat]
    | cons d cs =>
      simp only [List.map_cons] at ih ⊢
      rw [textOfUnits?, ih]
      simp [isHighHalf_toNat, isLowHalf_toNat]

theorem readString_quote (s : String) (rest : List Char) :
    readString (s.toList.flatMap escape ++ '"' :: rest) = some (some s, rest) := by
  simp [readString, stringUnits_quote, textOfUnits?_map_toNat]

/-- The text does not begin with anything that could continue a number. -/
def EndsNumber (rest : List Char) : Prop :=
  ∀ c cs, rest = c :: cs → c.isDigit = false ∧ c ≠ '.' ∧ c ≠ 'e' ∧ c ≠ 'E'

theorem endsNumber_nil : EndsNumber [] := by
  intro c cs h
  cases h

theorem endsNumber_cons {c : Char} (cs : List Char)
    (h : c.isDigit = false ∧ c ≠ '.' ∧ c ≠ 'e' ∧ c ≠ 'E') : EndsNumber (c :: cs) := by
  intro d ds heq
  cases heq
  exact h

theorem readDigits1_append {ds rest : List Char} (hne : ds ≠ [])
    (hds : ∀ c ∈ ds, c.isDigit = true) (hrest : EndsNumber rest) :
    readDigits1 (ds ++ rest) = some (ds, rest) := by
  have htake : (ds ++ rest).takeWhile Char.isDigit = ds := by
    rw [List.takeWhile_append_of_pos hds]
    cases rest with
    | nil => simp
    | cons c cs => simp [(hrest c cs rfl).1]
  have hdrop : (ds ++ rest).dropWhile Char.isDigit = rest := by
    rw [List.dropWhile_append_of_pos hds]
    cases rest with
    | nil => simp
    | cons c cs => simp [(hrest c cs rfl).1]
  unfold readDigits1
  rw [htake, hdrop]
  cases ds with
  | nil => exact absurd rfl hne
  | cons d ds => rfl

theorem readWhole_digits (n : Nat) {rest : List Char} (hrest : EndsNumber rest) :
    readWhole (digits n ++ rest) = some (digits n, rest) := by
  cases hds : digits n with
  | nil => exact absurd hds (digits_ne_nil n)
  | cons d ds =>
    by_cases hd : d = '0'
    · subst hd
      rw [digits_head_zero hds]
      rfl
    · have hread := readDigits1_append (digits_ne_nil n) (fun c => isDigit_of_mem_digits) hrest
      rw [hds] at hread
      rw [← hread, List.cons_append]
      unfold readWhole
      split
      · next heq => exact absurd (List.cons.inj heq).1 hd
      · rfl

theorem readFraction_of_endsNumber {rest : List Char} (hrest : EndsNumber rest) :
    readFraction rest = some ([], rest) := by
  unfold readFraction
  split
  · next cs => exact absurd rfl (hrest '.' cs rfl).2.1
  · rfl

theorem readExponent_of_endsNumber {rest : List Char} (hrest : EndsNumber rest) :
    readExponent rest = some ([], rest) := by
  cases rest with
  | nil => rfl
  | cons c cs =>
    obtain ⟨_, _, he, hE⟩ := hrest c cs rfl
    simp [readExponent, he, hE]

theorem digits_append_ne (n : Nat) (rest : List Char) {c : Char} (hc : c.isDigit = false)
    (cs : List Char) : digits n ++ rest ≠ c :: cs := by
  intro heq
  obtain ⟨d, ds, hds, hd⟩ := exists_digits_eq_cons n
  rw [hds, List.cons_append] at heq
  rw [(List.cons.inj heq).1, hc] at hd
  cases hd

/-- A decimal number is read up to what does not continue it. -/
theorem readNumber_digits (n : Nat) {rest : List Char} (hrest : EndsNumber rest) :
    readNumber (digits n ++ rest) = some (decimal n, rest) := by
  unfold readNumber
  split
  next sign cs heq =>
    split at heq
    · next heq' => exact absurd heq' (digits_append_ne n rest (by decide) _)
    · cases heq
      simp [readWhole_digits n hrest, readFraction_of_endsNumber hrest,
        readExponent_of_endsNumber hrest, decimal]

theorem text?_text (s : String) : (text s).text? = some s := rfl

theorem word?_word (n : UInt64) : (word n).word? = some n := by
  simp [word, word?, decimal, readDigits?_digits]

theorem verb?_name (budget : Nat) (v : Verb) : (text v.name).verb? budget = some v :=
  Verb.ofName?_name v

end ServiceChains.Json
