import ServiceChains.Proofs.Source.Region
import ServiceChains.Source.Mapping

/-!
# Blanking twice

A blanked text is read again where its type declaration is searched, or where it is taken for a source
itself. The second reading stays in step with the first. It stands in the code where the first one
stood in a comment, and in a literal where the first one stood in it: blanking takes quotes, line
breaks and backslashes away from the inside of a literal, but only those that do not end it, and no
slash of the code gets a slash or a star behind it. So blanking twice is blanking once.
-/
namespace ServiceChains.Source

open Text

section Reading

/-- Labels of earlier characters stand in front of those that follow. -/
theorem labelFrom_done (mode : Mode) (done : List (Char × Region)) (cs : List Char) :
    labelFrom mode done cs = done.reverse ++ labelFrom mode [] cs := by
  induction cs generalizing mode done with
  | nil => simp [labelFrom]
  | cons c cs ih =>
    simp only [labelFrom]
    rw [ih, ih _ [_]]
    simp

/-- What is left of a text, blanked, if it is read from a given mode on. -/
def blankFrom (literals : Bool) (mode : Mode) (cs : List Char) : List Char :=
  (labelFrom mode [] cs).flatMap (blankChar literals)

theorem blank_eq_blankFrom (literals : Bool) (source : List Char) :
    blank literals source = blankFrom literals .code source := rfl

theorem blankFrom_cons (literals : Bool) (mode : Mode) (c : Char) (cs : List Char) :
    blankFrom literals mode (c :: cs) =
      blankChar literals (c, (step mode c cs.head?).1) ++
        blankFrom literals (step mode c cs.head?).2 cs := by
  simp only [blankFrom, labelFrom]
  rw [labelFrom_done]
  rfl

/-- Blanking puts nothing in front of a text, except for a space in the place of its first
character. -/
theorem head?_blankFrom (literals : Bool) (mode : Mode) (cs : List Char) :
    (blankFrom literals mode cs).head? = cs.head? ∨
      (blankFrom literals mode cs).head? = some ' ' := by
  cases cs with
  | nil => exact .inl rfl
  | cons c cs =>
    rw [blankFrom_cons, blankChar_eq]
    split_ifs
    · right
      obtain ⟨n, hn⟩ := Nat.exists_eq_succ_of_ne_zero c.utf8Size_pos.ne'
      rw [hn, List.replicate_succ]
      rfl
    · exact .inl rfl

theorem blankChar_space (literals : Bool) (region : Region) :
    blankChar literals (' ', region) = [' '] := by
  rw [blankChar_eq]
  split_ifs <;> rfl

/-- Spaces are kept where they do not change the mode. -/
theorem blankFrom_spaces {mode : Mode} (h : ∀ next, (step mode ' ' next).2 = mode) (literals : Bool)
    (n : Nat) (rest : List Char) :
    blankFrom literals mode (List.replicate n ' ' ++ rest) =
      List.replicate n ' ' ++ blankFrom literals mode rest := by
  induction n with
  | zero => rfl
  | succ n ih =>
    rw [List.replicate_succ, List.cons_append, blankFrom_cons, h, ih, blankChar_space]
    rfl

end Reading

section Second

/-- The mode of a second reading at a place where the first one had a given mode, if the literals were
blanked or not. -/
def secondMode (literals : Bool) : Mode → Mode
  | .literal quote => .literal quote
  | .escaped quote => if literals then .literal quote else .escaped quote
  | .code | .lineComment | .opening | .blockComment | .closing => .code

/-- No space ends the literal that is open. -/
def Mode.SpaceInside : Mode → Prop
  | .literal quote | .escaped quote => quote ≠ ' '
  | .code | .lineComment | .opening | .blockComment | .closing => True

variable {mode : Mode} {c : Char} {next : Option Char} {literals : Bool}

theorem spaceInside_step (h : mode.SpaceInside) (c : Char) (next : Option Char) :
    (step mode c next).2.SpaceInside := by
  cases mode with
  | code =>
    simp only [step]
    split_ifs with hline hblock hquote
    · trivial
    · trivial
    · rintro rfl
      rcases hquote with hquote | hquote <;> cases hquote
    · trivial
  | lineComment =>
    simp only [step]
    split_ifs <;> trivial
  | opening => trivial
  | blockComment =>
    simp only [step]
    split_ifs <;> trivial
  | closing => trivial
  | literal quote =>
    simp only [step]
    split_ifs
    · trivial
    · exact h
    · exact h
  | escaped quote => exact h

/-- Where the first reading is in a comment the second one is in the code. -/
theorem secondMode_of_comment (h : (step mode c next).1 = .comment) (literals : Bool) :
    secondMode literals mode = .code ∧ secondMode literals (step mode c next).2 = .code := by
  cases mode with
  | code | lineComment | blockComment =>
    refine ⟨rfl, ?_⟩
    simp only [step] at h ⊢
    split_ifs at h ⊢ <;> rfl
  | opening | closing => exact ⟨rfl, rfl⟩
  | literal quote =>
    simp only [step] at h
    split_ifs at h
  | escaped quote => cases h

/-- Inside a blanked literal the second reading never stands behind a backslash. -/
theorem secondMode_of_literal (h : (step mode c next).1 = .literal) (hmode : mode.SpaceInside) :
    ∃ quote, quote ≠ ' ' ∧ secondMode true mode = .literal quote ∧
      secondMode true (step mode c next).2 = .literal quote := by
  cases mode with
  | code | lineComment | blockComment =>
    simp only [step] at h
    split_ifs at h
  | opening | closing => cases h
  | literal quote =>
    refine ⟨quote, hmode, rfl, ?_⟩
    simp only [step] at h ⊢
    split_ifs at h ⊢ <;> rfl
  | escaped quote => exact ⟨quote, hmode, rfl, rfl⟩

/-- A literal that was left alone is read alike for the second time, whatever follows. -/
theorem step_of_literal (h : (step mode c next).1 = .literal) (next' : Option Char) :
    step (secondMode false mode) c next' =
      (.literal, secondMode false (step mode c next).2) := by
  cases mode with
  | code | lineComment | blockComment =>
    simp only [step] at h
    split_ifs at h
  | opening | closing => cases h
  | literal quote =>
    change step (.literal quote) c next' = _
    simp only [step] at h ⊢
    split_ifs at h ⊢ <;> rfl
  | escaped quote => rfl

/-- The code is read alike for the second time. What follows a character of it may have become a
space, but a slash in the code has neither a slash nor a star behind it then. -/
theorem step_of_code (h : (step mode c next).1 = .code) {next' : Option Char}
    (hnext : next' = next ∨ next' = some ' ') (literals : Bool) :
    step (secondMode literals mode) c next' =
      (.code, secondMode literals (step mode c next).2) := by
  cases mode with
  | code =>
    change step .code c next' = _
    have hline : ¬ (c = '/' ∧ next = some '/') := fun hline => by simp [step, hline] at h
    have hblock : ¬ (c = '/' ∧ next = some '*') := fun hblock => by simp [step, hblock] at h
    have hline' : ¬ (c = '/' ∧ next' = some '/') := by
      rcases hnext with rfl | rfl
      · exact hline
      · simp
    have hblock' : ¬ (c = '/' ∧ next' = some '*') := by
      rcases hnext with rfl | rfl
      · exact hblock
      · simp
    simp only [step, if_neg hline, if_neg hline', if_neg hblock, if_neg hblock']
    split_ifs <;> rfl
  | lineComment =>
    obtain rfl : c = '\n' := by
      by_contra hc
      simp [step, hc] at h
    rfl
  | blockComment =>
    simp only [step] at h
    split_ifs at h
  | opening | closing | escaped quote => cases h
  | literal quote =>
    change step (.literal quote) c next' = _
    simp only [step] at h ⊢
    split_ifs at h ⊢
    rfl

/-- One character further, both readings are in step again. -/
theorem blankFrom_blankChar (hmode : mode.SpaceInside) {rest : List Char}
    (hnext : rest.head? = next ∨ rest.head? = some ' ') (literals further : Bool) :
    blankFrom further (secondMode literals mode)
        (blankChar literals (c, (step mode c next).1) ++ rest) =
      blankChar (literals || further) (c, (step mode c next).1) ++
        blankFrom further (secondMode literals (step mode c next).2) rest := by
  cases hregion : (step mode c next).1 with
  | code =>
    have hkept (literals : Bool) : blankChar literals (c, .code) = [c] := rfl
    rw [hkept, hkept, List.singleton_append, blankFrom_cons, step_of_code hregion hnext, hkept]
  | comment =>
    obtain ⟨hhere, hbehind⟩ := secondMode_of_comment hregion literals
    rw [hhere, hbehind]
    by_cases hc : c = '\n'
    · subst hc
      exact blankFrom_cons further .code '\n' rest
    · have hblanked (literals : Bool) :
          blankChar literals (c, .comment) = List.replicate c.utf8Size ' ' := by
        rw [blankChar_eq, if_pos]
        exact bne_iff_ne.mpr hc
      rw [hblanked, hblanked, blankFrom_spaces fun _ => rfl]
  | literal =>
    cases literals with
    | true =>
      obtain ⟨quote, hquote, hhere, hbehind⟩ := secondMode_of_literal hregion hmode
      have hsteady (next : Option Char) : (step (.literal quote) ' ' next).2 = .literal quote := by
        simp [step, hquote.symm]
      have hblanked : blankChar true (c, .literal) = List.replicate c.utf8Size ' ' := rfl
      rw [hhere, hbehind, Bool.true_or, hblanked, blankFrom_spaces hsteady]
    | false =>
      have hkept : blankChar false (c, .literal) = [c] := rfl
      rw [hkept, List.singleton_append, blankFrom_cons, step_of_literal hregion, Bool.false_or]

/-- From any place on, blanking what is left twice is blanking it once. -/
theorem blankFrom_blankFrom (literals further : Bool) (hmode : mode.SpaceInside) (cs : List Char) :
    blankFrom further (secondMode literals mode) (blankFrom literals mode cs) =
      blankFrom (literals || further) mode cs := by
  induction cs generalizing mode with
  | nil => rfl
  | cons c cs ih =>
    have hnext := head?_blankFrom literals (step mode c cs.head?).2 cs
    rw [blankFrom_cons literals, blankFrom_cons (literals || further),
      blankFrom_blankChar hmode hnext, ih (spaceInside_step hmode c cs.head?)]

end Second

theorem blank_blank (literals further : Bool) (source : List Char) :
    blank further (blank literals source) = blank (literals || further) source := by
  have hcode : Mode.SpaceInside .code := trivial
  simp only [blank_eq_blankFrom]
  exact blankFrom_blankFrom literals further hcode source

/-- Blanking twice is blanking once what either blanks. So blanking a text a second time changes
nothing, blanking comments first and literals later is blanking both at once, and a source and its text
without comments declare the same routes and have the same methods. -/
theorem blanking_composes (source : List Char) :
    (∀ literals further, blank further (blank literals source) =
      blank (literals || further) source) ∧
    (∀ literals, blank literals (blank literals source) = blank literals source) ∧
    blank true (blank false source) = blank true source ∧
    (∀ fileName, declarations fileName (blank false source) = declarations fileName source) ∧
    methods (blank false source) = methods source := by
  refine ⟨fun literals further => blank_blank literals further source, ?_,
    blank_blank false true source, ?_, ?_⟩
  · intro literals
    rw [blank_blank, Bool.or_self]
  · intro fileName
    simp only [declarations, blank_blank, Bool.or_self]
  · rw [methods, methods, blank_blank, Bool.or_self, byteSize_blank]

/-- A literal with an escaped quote and a comment mark in it, a comment, and an open literal that ends
with a backslash. -/
example : blank true "\"\\\"/*\" // a\n'\\".toList = "\"    \"     \n' ".toList := by decide

end ServiceChains.Source
