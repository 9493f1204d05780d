import ServiceChains.Proofs.Text.Blank
import ServiceChains.Proofs.Text.Decimal
import ServiceChains.Proofs.Toml.Quoted
import ServiceChains.Toml.Scalar

/-!
# Values at the end of a line can be read back

A string, a whole number or a truth value is read back from what is written for it, if the line ends
behind it. The digits of a number are tried as a date, as a time of day and as a number with a point
first: none of these gets past the end of the line without a mark between digits.
-/
namespace ServiceChains.Toml

open Text

/-- The text is read as the value wherever the line ends behind it. It does not begin like a blank, an
array or a table. -/
structure Spells (text : List Char) (value : Toml) : Prop where
  head : ∃ c cs, text = c :: cs ∧ isTomlBlank c = false ∧ c ≠ '[' ∧ c ≠ '{'
  read : ∀ rest, readScalar (text ++ '\n' :: rest) = some (value, '\n' :: rest)

theorem exists_quoted_eq_cons (s : String) :
    ∃ c cs, (quoted s).toList = c :: cs ∧ (c = '"' ∨ c = '\'') := by
  rw [quoted, String.toList_ofList]
  cases Form.choose s.toList with
  | quotes => exact ⟨_, _, rfl, .inl rfl⟩
  | apostrophes => exact ⟨_, _, rfl, .inr rfl⟩
  | tripleQuotes => exact ⟨_, _, rfl, .inl rfl⟩
  | tripleApostrophes => exact ⟨_, _, rfl, .inr rfl⟩

theorem spells_quoted (s : String) : Spells (quoted s).toList (.string s) := by
  obtain ⟨c, cs, hcs, hc⟩ := exists_quoted_eq_cons s
  refine ⟨⟨c, cs, hcs, ?_, ?_, ?_⟩, ?_⟩
  · rcases hc with rfl | rfl <;> decide
  · rcases hc with rfl | rfl <;> decide
  · rcases hc with rfl | rfl <;> decide
  · intro rest
    have hread := readString_quoted s rest
    rw [hcs, List.cons_append] at hread ⊢
    simp [readScalar, hc, hread]

theorem spells_bool (b : Bool) : Spells (if b then "true" else "false").toList (.bool b) := by
  cases b with
  | true => exact ⟨⟨_, _, rfl, by decide, by decide, by decide⟩, fun rest => rfl⟩
  | false => exact ⟨⟨_, _, rfl, by decide, by decide, by decide⟩, fun rest => rfl⟩

section Digits

variable {ds rest : List Char}

theorem moreDigits_append (hds : ∀ d ∈ ds, d.isDigit = true) (rest : List Char) :
    moreDigits Char.isDigit (ds ++ '\n' :: rest) = (ds, '\n' :: rest) := by
  induction ds with
  | nil => simp [moreDigits]
  | cons d ds ih =>
    obtain ⟨hd, hds⟩ := List.forall_mem_cons.mp hds
    have hmark : d ≠ '_' := ne_of_class hd (by decide)
    simp [moreDigits, hd, hmark, ih hds]

theorem digitRun_append (hne : ds ≠ []) (hds : ∀ d ∈ ds, d.isDigit = true) (rest : List Char) :
    digitRun Char.isDigit (ds ++ '\n' :: rest) = some (ds, '\n' :: rest) := by
  cases ds with
  | nil => exact absurd rfl hne
  | cons d ds =>
    obtain ⟨hd, hds⟩ := List.forall_mem_cons.mp hds
    simp [digitRun, hd, moreDigits_append hds]

theorem wholeRun_digits (n : Nat) (rest : List Char) :
    wholeRun (digits n ++ '\n' :: rest) = some (digits n, '\n' :: rest) := by
  have hread := digitRun_append (digits_ne_nil n) (fun d => isDigit_of_mem_digits) rest
  unfold wholeRun
  split
  · next cs heq =>
    obtain ⟨d, ds, hds, -⟩ := exists_digits_eq_cons n
    rw [hds, List.cons_append] at heq
    obtain ⟨rfl, rfl⟩ := List.cons.inj heq
    rw [hds, digits_head_zero hds]
    rfl
  · exact hread

/-- Digits that are read off a run of digits leave a run of digits. -/
theorem exists_of_fixedDigits (hds : ∀ d ∈ ds, d.isDigit = true) {n least greatest value : Nat}
    {cs : List Char}
    (h : fixedDigits n least greatest (ds ++ '\n' :: rest) = some (value, cs)) :
    ∃ left, (∀ d ∈ left, d.isDigit = true) ∧ cs = left ++ '\n' :: rest := by
  simp only [fixedDigits] at h
  split_ifs at h with hread
  obtain ⟨-, rfl⟩ := Prod.mk.inj (Option.some.inj h)
  simp only [Bool.and_eq_true, List.all_eq_true] at hread
  have hle : n ≤ ds.length := by
    by_contra hlt
    have hfeed : '\n' ∈ (ds ++ '\n' :: rest).take n := by
      obtain ⟨k, hk⟩ : ∃ k, n - ds.length = k + 1 := ⟨n - ds.length - 1, by omega⟩
      rw [List.take_append, hk, List.take_succ_cons]
      simp
    have hdigit := hread.1.1.2 '\n' hfeed
    cases hdigit
  refine ⟨ds.drop n, fun d hd => hds d (List.mem_of_mem_drop hd), ?_⟩
  exact List.drop_append_of_le_length hle

theorem mark_eq_none (hds : ∀ d ∈ ds, d.isDigit = true) {c : Char} (hc : c.isDigit = false)
    (hfeed : c ≠ '\n') : mark c (ds ++ '\n' :: rest) = none := by
  cases ds with
  | nil => simp [mark, hfeed.symm]
  | cons d ds =>
    have hne : d ≠ c := ne_of_class (hds d (by simp)) hc
    simp [mark, hne]

theorem readDate_eq_none (hds : ∀ d ∈ ds, d.isDigit = true) :
    readDate (ds ++ '\n' :: rest) = none := by
  unfold readDate
  cases hyear : fixedDigits 4 0 9999 (ds ++ '\n' :: rest) with
  | none => rfl
  | some year =>
    obtain ⟨value, cs⟩ := year
    obtain ⟨left, hleft, rfl⟩ := exists_of_fixedDigits hds hyear
    simp [mark_eq_none hleft]

theorem readTime_eq_none (hds : ∀ d ∈ ds, d.isDigit = true) :
    readTime (ds ++ '\n' :: rest) = none := by
  unfold readTime
  cases hhour : fixedDigits 2 0 23 (ds ++ '\n' :: rest) with
  | none => rfl
  | some hour =>
    obtain ⟨value, cs⟩ := hour
    obtain ⟨left, hleft, rfl⟩ := exists_of_fixedDigits hds hhour
    simp [mark_eq_none hleft]

theorem readMoment_eq_none (hds : ∀ d ∈ ds, d.isDigit = true) :
    readMoment (ds ++ '\n' :: rest) = none := by
  simp [readMoment, readDate_eq_none hds, readTime_eq_none hds]

end Digits

section Numbers

variable (n : Nat) (rest : List Char)

theorem exists_digits_append_eq_cons :
    ∃ d cs, digits n ++ '\n' :: rest = d :: cs ∧ d.isDigit = true := by
  obtain ⟨d, ds, hds, hd⟩ := exists_digits_eq_cons n
  exact ⟨d, ds ++ '\n' :: rest, by rw [hds, List.cons_append], hd⟩

/-- Digits do not begin with a sign. -/
theorem readSign_digits :
    readSign (digits n ++ '\n' :: rest) = (false, digits n ++ '\n' :: rest) := by
  obtain ⟨d, cs, hcs, hd⟩ := exists_digits_append_eq_cons n rest
  have hplus : d ≠ '+' := ne_of_class hd (by decide)
  have hminus : d ≠ '-' := ne_of_class hd (by decide)
  simp [hcs, readSign, hplus, hminus]

theorem readFloat_digits : readFloat (digits n ++ '\n' :: rest) = none := by
  have hspecial : readSpecial (digits n ++ '\n' :: rest) = none := by
    obtain ⟨d, cs, hcs, hd⟩ := exists_digits_append_eq_cons n rest
    have hinf : d ≠ 'i' := ne_of_class hd (by decide)
    have hnan : d ≠ 'n' := ne_of_class hd (by decide)
    simp [hcs, readSpecial, hinf, hnan]
  simp [readFloat, readFinite, readSign_digits, hspecial, wholeRun_digits, isBroken]

/-- Digits do not begin with the mark of another base. -/
theorem eq_of_digits_append_eq {n : Nat} {rest cs : List Char} {c : Char}
    (h : digits n ++ '\n' :: rest = '0' :: c :: cs) : c = '\n' := by
  obtain ⟨d, ds, hds, -⟩ := exists_digits_eq_cons n
  rw [hds, List.cons_append] at h
  obtain ⟨hzero, htail⟩ := List.cons.inj h
  rw [hzero] at hds
  rw [digits_head_zero hds] at htail
  exact (List.cons.inj htail).1.symm

/-- The digits of a number below the bound are read as that number. -/
theorem readInteger_digits (hn : n < integerBound) :
    readInteger (digits n ++ '\n' :: rest) = some (.integer n, '\n' :: rest) := by
  unfold readInteger
  split
  · next cs heq => cases eq_of_digits_append_eq heq
  · next cs heq => cases eq_of_digits_append_eq heq
  · next cs heq => cases eq_of_digits_append_eq heq
  · simp [readSign_digits, wholeRun_digits, ofDigits_digits, word?, hn]

theorem readScalar_digits (hn : n < integerBound) :
    readScalar (digits n ++ '\n' :: rest) = some (.integer n, '\n' :: rest) := by
  have hdigits : ∀ d ∈ digits n, d.isDigit = true := fun d => isDigit_of_mem_digits
  have hmoment : readMoment (digits n ++ '\n' :: rest) = none := readMoment_eq_none hdigits
  have hfloat := readFloat_digits n rest
  have hinteger := readInteger_digits n rest hn
  obtain ⟨d, cs, hcs, hd⟩ := exists_digits_append_eq_cons n rest
  rw [hcs] at hmoment hfloat hinteger ⊢
  have hother {c : Char} (hc : c.isDigit = false) : d ≠ c := ne_of_class hd hc
  have hquote : (d == '"' || d == '\'') = false := by simp [hother]
  have hletter : (d == 't' || d == 'f') = false := by simp [hother]
  simp [readScalar, hquote, hletter, hmoment, hfloat, hinteger]

theorem spells_decimal (hn : n < integerBound) : Spells (decimal n).toList (.integer n) := by
  rw [decimal, String.toList_ofList]
  obtain ⟨d, ds, hds, hd⟩ := exists_digits_eq_cons n
  have hother {c : Char} (hc : c.isDigit = false) : d ≠ c := ne_of_class hd hc
  refine ⟨⟨d, ds, hds, ?_, hother (by decide), hother (by decide)⟩, fun rest =>
    readScalar_digits n rest hn⟩
  simp [isTomlBlank, hother]

end Numbers

end ServiceChains.Toml
