import ServiceChains.Proofs.Text.Blank
import ServiceChains.Toml.Text
import ServiceChains.Toml.Writer

/-!
# Strings can be read back

A string is read back from whichever of the four forms it is written in. Between quotes every
character is escaped that could not stand there, so these two forms can hold any text. Between
apostrophes nothing can be escaped, and these forms are chosen only for texts that need no escapes.
With three quotes or apostrophes around it, a text may end in up to two of them, which the reader
tells from the closing ones only when it has seen all of them; so runs of them are read as a whole.
-/
namespace ServiceChains.Toml

section Escapes

theorem charOfHex?_hexChar :
    ∀ n < 128, charOfHex? ['0', '0', hexChar (n / 16), hexChar (n % 16)] = some (Char.ofNat n) := by
  decide

theorem toNat_lt_of_isControl {c : Char} (h : isControl c = true) : c.toNat < 128 := by
  simp only [isControl, Bool.or_eq_true, beq_iff_eq, Bool.and_eq_true, decide_eq_true_eq] at h
  omega

/-- A control character is read back from its code point. -/
theorem charOfHex?_of_isControl {c : Char} (h : isControl c = true) :
    charOfHex? ['0', '0', hexChar (c.toNat / 16), hexChar (c.toNat % 16)] = some c := by
  rw [charOfHex?_hexChar _ (toNat_lt_of_isControl h), Char.ofNat_toNat]

theorem isPlain_of_not_isControl {c : Char} (h : isControl c = false) (hn : c ≠ '\n') :
    isPlain c = true := by
  have hcode : c.toNat ≠ '\n'.toNat := fun he => hn (Char.toNat_inj.mp he)
  by_cases htab : c = '\t'
  · simp [isPlain, htab]
  · simp only [isControl, Bool.or_eq_false_iff, beq_eq_false_iff_ne, Bool.and_eq_false_iff,
      decide_eq_false_iff_not, bne_eq_false_iff_eq] at h
    simp only [isPlain, Bool.or_eq_true, beq_iff_eq, Bool.and_eq_true, decide_eq_true_eq, bne_iff_ne]
    refine .inr ⟨?_, h.1⟩
    rcases h.2 with (hlow | htab') | hn'
    · omega
    · exact absurd htab' htab
    · exact absurd hn' hn

/-- What stands for a character between quotes: an escape with one letter or with a code point, or
the character itself. -/
theorem escape_cases (c : Char) :
    (∃ e, escape c = ['\\', e] ∧ shortEscape? e = some c) ∨
    (∃ x y, escape c = ['\\', 'u', '0', '0', x, y] ∧ charOfHex? ['0', '0', x, y] = some c) ∨
    escape c = [c] ∧ isPlain c = true ∧ c ≠ '"' ∧ c ≠ '\\' := by
  unfold escape
  split_ifs with hb ht hn hf hr hquote hback hcontrol
  · exact .inl ⟨'b', rfl, by rw [hb]; rfl⟩
  · exact .inl ⟨'t', rfl, by rw [ht]; rfl⟩
  · exact .inl ⟨'n', rfl, by rw [hn]; rfl⟩
  · exact .inl ⟨'f', rfl, by rw [hf]; rfl⟩
  · exact .inl ⟨'r', rfl, by rw [hr]; rfl⟩
  · exact .inl ⟨'"', rfl, by rw [hquote]; rfl⟩
  · exact .inl ⟨'\\', rfl, by rw [hback]; rfl⟩
  · exact .inr (.inl ⟨_, _, rfl, charOfHex?_of_isControl hcontrol⟩)
  · exact .inr (.inr ⟨rfl, isPlain_of_not_isControl (by simpa using hcontrol) hn, hquote, hback⟩)

theorem ne_of_isPlain {c : Char} (h : isPlain c = true) : c ≠ '\n' ∧ c ≠ '\r' :=
  ⟨Text.ne_of_class h (by decide), Text.ne_of_class h (by decide)⟩

theorem ne_of_shortEscape? {e c : Char} (h : shortEscape? e = some c) : e ≠ 'u' ∧ e ≠ 'U' := by
  constructor
  · rintro rfl
    cases h
  · rintro rfl
    cases h

/-- What stands for a character between quotes begins neither with a quote nor with a line break. -/
theorem exists_escape_eq_cons (c : Char) :
    ∃ x xs, escape c = x :: xs ∧ x ≠ '"' ∧ isPlain x = true := by
  obtain ⟨e, he, -⟩ | ⟨x, y, he, -⟩ | ⟨he, hplain, hquote, -⟩ := escape_cases c
  · exact ⟨_, _, he, by decide, by decide⟩
  · exact ⟨_, _, he, by decide, by decide⟩
  · exact ⟨_, _, he, hquote, hplain⟩

end Escapes

section Readers

-- Each lemma of this section up to the texts as a whole takes one step of a reader.
attribute [local simp] basicText basicLines literalLines

/-- An escaped character is read as that character. -/
theorem basicText_escape (seen : List Char) (c : Char) (rest : List Char) :
    basicText seen (escape c ++ rest) = basicText (c :: seen) rest := by
  obtain ⟨e, he, hshort⟩ | ⟨x, y, he, hhex⟩ | ⟨he, hplain, hquote, hback⟩ := escape_cases c
  · obtain ⟨hu, hU⟩ := ne_of_shortEscape? hshort
    simp [he, hshort, hu, hU]
  · simp [he, hhex]
  · simp [he, hplain, hback]

/-- A text between quotes is read up to the closing one. -/
theorem basicText_flatMap_escape (seen cs rest : List Char) :
    basicText seen (cs.flatMap escape ++ '"' :: rest) =
      some (String.ofList (seen.reverse ++ cs), rest) := by
  induction cs generalizing seen with
  | nil => simp
  | cons c cs ih =>
    rw [List.flatMap_cons, List.append_assoc, basicText_escape, ih]
    simp

theorem basicLines_escape (seen : List Char) (c : Char) (rest : List Char) :
    basicLines false seen (escape c ++ rest) = basicLines false (c :: seen) rest := by
  obtain ⟨e, he, hshort⟩ | ⟨x, y, he, hhex⟩ | ⟨he, hplain, hquote, hback⟩ := escape_cases c
  · obtain ⟨hu, hU⟩ := ne_of_shortEscape? hshort
    simp [he, hshort, hu, hU]
  · simp [he, hhex]
  · have hr := (ne_of_isPlain hplain).2
    simp [he, hplain, hquote, hback, hr]

/-- Quotes in front of another character are part of the text, as long as they are too few to close
it. -/
theorem basicLines_quotes {run : Nat} (hrun : run ≤ 2) (seen : List Char) {x : Char} (hx : x ≠ '"')
    (rest : List Char) :
    basicLines false seen (List.replicate run '"' ++ x :: rest) =
      basicLines false (List.replicate run '"' ++ seen) (x :: rest) := by
  interval_cases run
  · rfl
  · simp [List.replicate, hx, isPlain]
  · simp [List.replicate, hx, isPlain]

/-- Up to two quotes in front of the closing ones are part of the text. -/
theorem basicLines_close {run : Nat} (hrun : run ≤ 2) (seen rest : List Char) :
    basicLines false seen (List.replicate run '"' ++ ['"', '"', '"'] ++ '\n' :: rest) =
      some (String.ofList (seen.reverse ++ List.replicate run '"'), '\n' :: rest) := by
  interval_cases run
  · simp
  · simp [List.replicate]
  · simp [List.replicate]

/-- A text between triple quotes is read up to the closing ones. The quotes just before are read
together with what follows them. -/
theorem basicLines_escapeLines {run : Nat} (hrun : run ≤ 2) (seen cs rest : List Char) :
    basicLines false seen (List.replicate run '"' ++
        (escapeLines run cs ++ (['"', '"', '"'] ++ '\n' :: rest))) =
      some (String.ofList (seen.reverse ++ (List.replicate run '"' ++ cs)), '\n' :: rest) := by
  induction cs generalizing run seen with
  | nil =>
    rw [escapeLines, List.nil_append, ← List.append_assoc, basicLines_close hrun, List.append_nil]
  | cons c cs ih =>
    rw [escapeLines]
    split_ifs with hn hquote
    · subst hn
      have hrest := ih (Nat.zero_le 2) ('\n' :: (List.replicate run '"' ++ seen))
      rw [List.cons_append, basicLines_quotes hrun seen (by decide)]
      simpa using hrest
    · obtain ⟨rfl, hlt⟩ : c = '"' ∧ run < 2 := by simpa using hquote
      have hrest := ih (Nat.succ_le_of_lt hlt) seen
      simpa [List.replicate_succ'] using hrest
    · have hrest := ih (Nat.zero_le 2) (c :: (List.replicate run '"' ++ seen))
      obtain ⟨x, xs, hescape, hx, -⟩ := exists_escape_eq_cons c
      rw [hescape, List.append_assoc, List.cons_append, basicLines_quotes hrun seen hx,
        ← List.cons_append, ← hescape, basicLines_escape]
      simpa using hrest

/-- A text between apostrophes is read up to the closing one. -/
theorem literalText_append {cs : List Char} (hplain : ∀ c ∈ cs, isPlain c = true)
    (hcs : '\'' ∉ cs) (rest : List Char) :
    literalText (cs ++ '\'' :: rest) = some (String.ofList cs, rest) := by
  have hall : ∀ c ∈ cs, (isPlain c && c != '\'') = true := by
    intro c hc
    have hne : c ≠ '\'' := fun he => hcs (he ▸ hc)
    simp [hplain c hc, hne]
  rw [literalText, List.dropWhile_append_of_pos hall, List.takeWhile_append_of_pos hall]
  simp

theorem literalLines_cons (seen : List Char) {c : Char} (hc : c ≠ '\'')
    (hcontrol : isControl c = false) (rest : List Char) :
    literalLines seen (c :: rest) = literalLines (c :: seen) rest := by
  have hr : c ≠ '\r' := by
    rintro rfl
    cases hcontrol
  have hstands : isPlain c = true ∨ c = '\n' := by
    by_cases hn : c = '\n'
    · exact .inr hn
    · exact .inl (isPlain_of_not_isControl hcontrol hn)
  simp [hc, hr, hstands]

/-- Apostrophes in front of another character are part of the text, as long as they are too few to
close it. -/
theorem literalLines_apostrophes {run : Nat} (hrun : run ≤ 2) (seen : List Char) {x : Char}
    (hx : x ≠ '\'') (rest : List Char) :
    literalLines seen (List.replicate run '\'' ++ x :: rest) =
      literalLines (List.replicate run '\'' ++ seen) (x :: rest) := by
  interval_cases run
  · rfl
  · simp [List.replicate, hx, isPlain]
  · simp [List.replicate, hx, isPlain]

/-- Up to two apostrophes in front of the closing ones are part of the text. -/
theorem literalLines_close {run : Nat} (hrun : run ≤ 2) (seen rest : List Char) :
    literalLines seen (List.replicate run '\'' ++ ['\'', '\'', '\''] ++ '\n' :: rest) =
      some (String.ofList (seen.reverse ++ List.replicate run '\''), '\n' :: rest) := by
  interval_cases run
  · simp
  · simp [List.replicate]
  · simp [List.replicate]

/-- A text between triple apostrophes is read up to the closing ones. The apostrophes just before are
read together with what follows them. -/
theorem literalLines_append {run : Nat} {cs : List Char} (hrun : longestRun '\'' run cs ≤ 2)
    (hcs : ∀ c ∈ cs, isControl c = false) (seen rest : List Char) :
    literalLines seen (List.replicate run '\'' ++
        (cs ++ (['\'', '\'', '\''] ++ '\n' :: rest))) =
      some (String.ofList (seen.reverse ++ (List.replicate run '\'' ++ cs)), '\n' :: rest) := by
  induction cs generalizing run seen with
  | nil =>
    rw [longestRun] at hrun
    rw [List.nil_append, ← List.append_assoc, literalLines_close hrun, List.append_nil]
  | cons c cs ih =>
    obtain ⟨hc, hcs⟩ := List.forall_mem_cons.mp hcs
    rw [longestRun] at hrun
    split_ifs at hrun with happ
    · have hrest := ih hrun hcs seen
      simpa [happ, List.replicate_succ'] using hrest
    · obtain ⟨hle, hrun⟩ := max_le_iff.mp hrun
      have hrest := ih hrun hcs (c :: (List.replicate run '\'' ++ seen))
      rw [List.cons_append, literalLines_apostrophes hle seen happ, literalLines_cons _ happ hc]
      simpa using hrest

end Readers

section Forms

/-- A line break behind the opening is dropped. One is written there if the text has line breaks, and
otherwise the text does not begin with one. -/
theorem dropFirstBreak_openingBreak {cs text : List Char}
    (h : '\n' ∉ cs → ∀ c ∈ text.head?, isPlain c = true) :
    dropFirstBreak (Form.openingBreak cs ++ text) = text := by
  unfold Form.openingBreak
  split_ifs with hn
  · rfl
  · cases text with
    | nil => rfl
    | cons c text =>
      obtain ⟨hfeed, hreturn⟩ := ne_of_isPlain (h (by simpa using hn) c rfl)
      simp [dropFirstBreak, afterBreak?, hfeed, hreturn]

theorem isPlain_head?_escapeLines {cs : List Char} (hn : '\n' ∉ cs) (rest : List Char) :
    ∀ c ∈ (escapeLines 0 cs ++ '"' :: rest).head?, isPlain c = true := by
  cases cs with
  | nil => simp [escapeLines, isPlain]
  | cons c cs =>
    have hc : c ≠ '\n' := fun he => hn (by simp [he])
    rw [escapeLines, if_neg hc]
    split_ifs with hquote
    · simp [isPlain]
    · obtain ⟨x, xs, hescape, -, hx⟩ := exists_escape_eq_cons c
      simpa [hescape] using hx

theorem isPlain_head?_append {cs : List Char} (hn : '\n' ∉ cs)
    (hcs : ∀ c ∈ cs, isControl c = false) (rest : List Char) :
    ∀ c ∈ (cs ++ '\'' :: rest).head?, isPlain c = true := by
  cases cs with
  | nil => simp [isPlain]
  | cons c cs =>
    have hc : c ≠ '\n' := fun he => hn (by simp [he])
    simpa using isPlain_of_not_isControl (hcs c (by simp)) hc

theorem readString_quotes (cs rest : List Char) :
    readString (Form.quotes.write cs ++ '\n' :: rest) = some (String.ofList cs, '\n' :: rest) := by
  have hread := basicText_flatMap_escape [] cs ('\n' :: rest)
  cases cs with
  | nil => simpa [Form.write, readString] using hread
  | cons c cs =>
    obtain ⟨x, xs, hescape, hx, -⟩ := exists_escape_eq_cons c
    simp only [List.flatMap_cons, hescape] at hread
    simpa [Form.write, readString, hescape, hx] using hread

theorem readString_tripleQuotes (cs rest : List Char) :
    readString (Form.tripleQuotes.write cs ++ '\n' :: rest) =
      some (String.ofList cs, '\n' :: rest) := by
  have hread := basicLines_escapeLines (Nat.zero_le 2) [] cs rest
  have hbreak := dropFirstBreak_openingBreak
    fun hn : '\n' ∉ cs => isPlain_head?_escapeLines hn ('"' :: '"' :: '\n' :: rest)
  simp only [List.replicate_zero, List.nil_append, List.cons_append] at hread
  simpa [Form.write, readString, hbreak] using hread

theorem readString_apostrophes {cs : List Char} (h : Form.apostrophes.isVerbatim cs = true)
    (rest : List Char) :
    readString (Form.apostrophes.write cs ++ '\n' :: rest) =
      some (String.ofList cs, '\n' :: rest) := by
  simp only [Form.isVerbatim, Bool.and_eq_true, Bool.not_eq_true', List.any_eq_false,
    List.contains_eq_mem, decide_eq_false_iff_not] at h
  obtain ⟨hcontrol, hcs, hn⟩ := h
  have hplain : ∀ c ∈ cs, isPlain c = true := by
    intro c hc
    exact isPlain_of_not_isControl (by simpa using hcontrol c hc) fun he => hn (he ▸ hc)
  have hread := literalText_append hplain hcs ('\n' :: rest)
  cases cs with
  | nil => simpa [Form.write, readString] using hread
  | cons c cs =>
    have hc : c ≠ '\'' := fun he => hcs (by simp [he])
    simpa [Form.write, readString, hc] using hread

theorem readString_tripleApostrophes {cs : List Char}
    (h : Form.tripleApostrophes.isVerbatim cs = true) (rest : List Char) :
    readString (Form.tripleApostrophes.write cs ++ '\n' :: rest) =
      some (String.ofList cs, '\n' :: rest) := by
  simp only [Form.isVerbatim, Bool.and_eq_true, Bool.not_eq_true', List.any_eq_false,
    decide_eq_true_eq, Bool.not_eq_true] at h
  obtain ⟨hcontrol, hrun⟩ := h
  have hread := literalLines_append hrun hcontrol [] rest
  have hbreak := dropFirstBreak_openingBreak
    fun hn : '\n' ∉ cs => isPlain_head?_append hn hcontrol ('\'' :: '\'' :: '\n' :: rest)
  simp only [List.replicate_zero, List.nil_append, List.cons_append] at hread
  simpa [Form.write, readString, hbreak] using hread

/-- The forms between apostrophes are chosen for texts only that can stand in them as they are. -/
theorem choose_cases (cs : List Char) :
    (Form.choose cs).isVerbatim cs = true ∨ Form.choose cs = .quotes ∨
      Form.choose cs = .tripleQuotes := by
  unfold Form.choose
  split
  · next f hf =>
    have hverbatim := List.find?_some hf
    exact .inl hverbatim
  · split_ifs
    · exact .inr (.inr rfl)
    · exact .inr (.inl rfl)

/-- A string is read back from the form in which it is written. -/
theorem readString_quoted (s : String) (rest : List Char) :
    readString ((quoted s).toList ++ '\n' :: rest) = some (s, '\n' :: rest) := by
  rw [quoted, String.toList_ofList]
  have hform := choose_cases s.toList
  have hread : readString ((Form.choose s.toList).write s.toList ++ '\n' :: rest) =
      some (String.ofList s.toList, '\n' :: rest) := by
    cases hchoose : Form.choose s.toList with
    | quotes => exact readString_quotes _ rest
    | tripleQuotes => exact readString_tripleQuotes _ rest
    | apostrophes => exact readString_apostrophes (by simpa [hchoose] using hform) rest
    | tripleApostrophes => exact readString_tripleApostrophes (by simpa [hchoose] using hform) rest
  rw [hread, String.ofList_toList]

end Forms

end ServiceChains.Toml
