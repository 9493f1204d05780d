import Mathlib
import ServiceChains.Proofs.Text.Blank
import ServiceChains.Proofs.Text.Leftmost
import ServiceChains.Proofs.Text.Word
import ServiceChains.Source.Method

/-!
# Calls are whole words

The calls of a body are the words directly in front of an opening parenthesis. A word is a run of
word characters that cannot be made longer: no word character stands before it, and a parenthesis is
none. A body is read word by word, and what stands behind a character between two words is read like
a body of its own. So the calls are listed in the order of their places, one for each place, and a scan
for word characters and a parenthesis behind them finds the same.
-/
namespace ServiceChains.Source

open Text

/-- Behind `before` the text has the word `name` and then an opening parenthesis. -/
structure CallAt (text before : List Char) (name : String) : Prop where
  exists_after : ∃ after, text = before ++ (name.toList ++ '(' :: after)
  ne_empty : name ≠ ""
  isWord_of_mem : ∀ c ∈ name.toList, isWord c = true
  isWord_last : ∀ c ∈ before.getLast?, isWord c = false

theorem isWord_parenthesis : isWord '(' = false := by decide

variable {word cs before : List Char} {c : Char} {name : String}

/-- A single word has no call. -/
theorem not_callAt_of_word (hword : ∀ x ∈ word, isWord x = true) : ¬ CallAt word before name := by
  intro h
  obtain ⟨after, hafter⟩ := h.exists_after
  have hparenthesis := hword '(' (by simp [hafter])
  rw [isWord_parenthesis] at hparenthesis
  cases hparenthesis

/-- A call of a text is its first word, if a parenthesis follows, or a call of what stands behind
the character that ends the first word. -/
theorem callAt_append_iff (hword : ∀ x ∈ word, isWord x = true) (hc : isWord c = false) :
    CallAt (word ++ c :: cs) before name ↔
      (before = [] ∧ word ≠ [] ∧ name = String.ofList word ∧ c = '(') ∨
      ∃ between, before = word ++ c :: between ∧ CallAt cs between name := by
  constructor
  · intro h
    obtain ⟨after, hafter⟩ := h.exists_after
    have hname : name.toList ≠ [] := by simpa using h.ne_empty
    rcases List.append_eq_append_iff.mp hafter with ⟨between, hbefore, hrest⟩ | ⟨rest, hrest, hend⟩
    · -- The call begins behind the first word: not with the character that ends it.
      refine .inr ?_
      cases between with
      | nil =>
        obtain ⟨x, name', hx⟩ := List.exists_cons_of_ne_nil hname
        rw [List.nil_append, hx, List.cons_append] at hrest
        have hword_c := h.isWord_of_mem c (by rw [hx, (List.cons.inj hrest).1]; simp)
        rw [hc] at hword_c
        cases hword_c
      | cons d between =>
        rw [List.cons_append] at hrest
        obtain ⟨rfl, hcs⟩ := List.cons.inj hrest
        refine ⟨between, hbefore, ⟨after, hcs⟩, h.ne_empty, h.isWord_of_mem, ?_⟩
        intro x hx
        apply h.isWord_last
        rw [hbefore, List.getLast?_append_of_ne_nil _ (by simp),
          List.getLast?_cons_of_ne_nil (by rintro rfl; cases hx)]
        exact hx
    · -- The call begins in the first word, so it begins where the word does.
      have hbefore : before = [] := by
        by_contra hne
        have hlast := List.getLast?_eq_some_getLast hne
        have hmem : before.getLast hne ∈ word := by simp [hrest]
        have hnot := h.isWord_last _ hlast
        rw [hword _ hmem] at hnot
        cases hnot
      subst hbefore
      rw [List.nil_append] at hrest
      subst hrest
      obtain ⟨hsame, hparenthesis, -⟩ :=
        run_inj h.isWord_of_mem hword isWord_parenthesis hc hend
      refine .inl ⟨rfl, hsame ▸ hname, ?_, hparenthesis.symm⟩
      rw [← hsame, String.ofList_toList]
  · rintro (⟨rfl, hne, rfl, rfl⟩ | ⟨between, rfl, h⟩)
    · refine ⟨⟨cs, by simp⟩, ?_, by simpa using hword, by simp⟩
      intro hempty
      exact hne (by simpa using congrArg String.toList hempty)
    · obtain ⟨after, rfl⟩ := h.exists_after
      refine ⟨⟨after, by simp⟩, h.ne_empty, h.isWord_of_mem, ?_⟩
      rw [List.getLast?_append_of_ne_nil _ (by simp)]
      intro x hx
      by_cases hbetween : between = []
      · subst hbetween
        rw [List.getLast?_singleton, Option.mem_some_iff] at hx
        rw [← hx]
        exact hc
      · rw [List.getLast?_cons_of_ne_nil hbetween] at hx
        exact h.isWord_last x hx

/-- A text is a single word, or a word, a character that ends it and a text. -/
theorem word_induction {P : List Char → Prop}
    (hword : ∀ word, (∀ x ∈ word, isWord x = true) → P word)
    (hstep : ∀ word c cs, (∀ x ∈ word, isWord x = true) → isWord c = false → P cs →
      P (word ++ c :: cs)) (text : List Char) : P text := by
  induction hn : text.length using Nat.strong_induction_on generalizing text with
  | _ n ih =>
    have hfirst : ∀ x ∈ text.takeWhile isWord, isWord x = true := fun x => List.mem_takeWhile_imp
    have hcut : text.takeWhile isWord ++ text.dropWhile isWord = text :=
      List.takeWhile_append_dropWhile
    cases hrest : text.dropWhile isWord with
    | nil =>
      rw [hrest, List.append_nil] at hcut
      exact hcut ▸ hword _ hfirst
    | cons c cs =>
      have hc := List.head?_dropWhile_not isWord text
      rw [hrest] at hc hcut
      have hlength := congrArg List.length hcut
      rw [List.length_append, List.length_cons] at hlength
      exact hcut ▸ hstep _ c cs hfirst hc (ih cs.length (by omega) cs rfl)

section Calls

theorem callsFrom_found (run : List Char) (found : List String) (cs : List Char) :
    callsFrom run found cs = found.reverse ++ callsFrom run [] cs := by
  induction cs generalizing run found with
  | nil => simp [callsFrom]
  | cons c cs ih =>
    simp only [callsFrom]
    split_ifs
    · exact ih ..
    · rw [ih, ih _ [_]]
      simp
    · exact ih ..

theorem callsFrom_word (hword : ∀ x ∈ word, isWord x = true) (run : List Char)
    (found : List String) (cs : List Char) :
    callsFrom run found (word ++ cs) = callsFrom (word.reverse ++ run) found cs := by
  induction word generalizing run with
  | nil => rfl
  | cons x word ih =>
    obtain ⟨hx, hword⟩ := List.forall_mem_cons.mp hword
    rw [List.cons_append, callsFrom, if_pos hx, ih hword]
    simp

theorem calls_of_word (hword : ∀ x ∈ word, isWord x = true) : calls word = [] := by
  have hall := callsFrom_word hword [] [] []
  rw [List.append_nil] at hall
  rw [calls, hall]
  rfl

/-- The calls of a text are its first word, if a parenthesis follows, and those of what stands behind
the character that ends the first word. -/
theorem calls_append (hword : ∀ x ∈ word, isWord x = true) (hc : isWord c = false)
    (cs : List Char) :
    calls (word ++ c :: cs) =
      (if c = '(' ∧ word ≠ [] then [String.ofList word] else []) ++ calls cs := by
  rw [calls, callsFrom_word hword, callsFrom, if_neg (by simp [hc]), List.append_nil]
  by_cases hcall : c = '(' ∧ word ≠ []
  · rw [if_pos (by simpa using hcall), if_pos hcall, callsFrom_found]
    simp [calls]
  · rw [if_neg (by simpa using hcall), if_neg hcall]
    rfl

/-- The names are those of all calls of a text, in the order of their places. -/
structure ListsCalls (text : List Char) (places : List (List Char)) (names : List String) :
    Prop where
  ordered : places.Pairwise fun before later => before.length < later.length
  standing : List.Forall₂ (CallAt text) places names
  complete : ∀ before name, CallAt text before name → before ∈ places

theorem exists_listsCalls (body : List Char) : ∃ places, ListsCalls body places (calls body) := by
  induction body using word_induction with
  | hword word hword =>
    rw [calls_of_word hword]
    exact ⟨[], .nil, .nil, fun before name h => absurd h (not_callAt_of_word hword)⟩
  | hstep word c cs hword hc ih =>
    obtain ⟨places, hplaces⟩ := ih
    have hmoved : List.Forall₂ (CallAt (word ++ c :: cs))
        (places.map fun between => word ++ c :: between) (calls cs) := by
      rw [List.forall₂_map_left_iff]
      exact hplaces.standing.imp fun between name h =>
        (callAt_append_iff hword hc).mpr (.inr ⟨between, rfl, h⟩)
    have hordered : (places.map fun between => word ++ c :: between).Pairwise
        fun before later => before.length < later.length := by
      rw [List.pairwise_map]
      exact hplaces.ordered.imp fun h => by simpa using h
    rw [calls_append hword hc]
    by_cases hcall : c = '(' ∧ word ≠ []
    · obtain ⟨rfl, hne⟩ := hcall
      refine ⟨[] :: places.map fun between => word ++ '(' :: between, ?_, ?_, ?_⟩
      · refine List.pairwise_cons.mpr ⟨?_, hordered⟩
        simp
      · rw [if_pos ⟨rfl, hne⟩]
        exact .cons ((callAt_append_iff hword hc).mpr (.inl ⟨rfl, hne, rfl, rfl⟩)) hmoved
      · intro before name h
        rcases (callAt_append_iff hword hc).mp h with ⟨rfl, -⟩ | ⟨between, rfl, hlater⟩
        · exact List.mem_cons_self
        · exact List.mem_cons_of_mem _ (List.mem_map_of_mem (hplaces.complete between name hlater))
    · rw [if_neg hcall]
      refine ⟨places.map fun between => word ++ c :: between, hordered, hmoved, ?_⟩
      intro before name h
      rcases (callAt_append_iff hword hc).mp h with ⟨-, hne, -, hopen⟩ | ⟨between, rfl, hlater⟩
      · exact absurd ⟨hopen, hne⟩ hcall
      · exact List.mem_map_of_mem (hplaces.complete between name hlater)

/-- One name stands at a place. -/
theorem CallAt.name_unique {text : List Char} {name' : String} (h : CallAt text before name)
    (h' : CallAt text before name') : name = name' := by
  obtain ⟨after, hafter⟩ := h.exists_after
  obtain ⟨after', hafter'⟩ := h'.exists_after
  have hsame := List.append_cancel_left (hafter.symm.trans hafter')
  exact String.toList_inj.mp (run_inj h.isWord_of_mem h'.isWord_of_mem isWord_parenthesis
    isWord_parenthesis hsame).1

/-- The calls of a body are the words directly in front of an opening parenthesis. -/
theorem mem_calls_iff {body : List Char} :
    name ∈ calls body ↔ ∃ before, CallAt body before name := by
  obtain ⟨places, hplaces⟩ := exists_listsCalls body
  have hlength := hplaces.standing.length_eq
  constructor
  · intro hmem
    obtain ⟨i, hi, rfl⟩ := List.mem_iff_getElem.mp hmem
    exact ⟨_, hplaces.standing.get (hlength ▸ hi) hi⟩
  · rintro ⟨before, hcall⟩
    obtain ⟨i, hi, rfl⟩ := List.mem_iff_getElem.mp (hplaces.complete before name hcall)
    rw [hcall.name_unique (hplaces.standing.get hi (hlength ▸ hi))]
    exact List.getElem_mem _

end Calls

section Finds

/-- A word and an opening parenthesis behind it. -/
def callName : Reader (List Char) := fun c => do
  let (name, c) ← c.run1 isWord
  let c ← c.char '('
  return (name, c)

/-- Any word characters in front of a parenthesis are read, and all of them: the run cannot go on. -/
theorem takes_callName : Takes callName fun name taken =>
    taken = name ++ ['('] ∧ name ≠ [] ∧ ∀ x ∈ name, isWord x = true := by
  intro c name d
  simp only [callName, Option.bind_eq_bind, Option.bind_eq_some_iff, Cursor.char_eq_some_iff]
  constructor
  · rintro ⟨⟨name', e⟩, hrun, d', hopen, hpure⟩
    cases hpure
    obtain ⟨rfl, hne, rfl⟩ := Cursor.run1_eq_some_iff.mp hrun
    exact ⟨_, ⟨rfl, hne, fun x => List.mem_takeWhile_imp⟩, (Cursor.passes_of_run1 hrun).trans hopen⟩
  · rintro ⟨taken, ⟨rfl, hne, hname⟩, hpass⟩
    obtain ⟨e, hrun, hopen⟩ := Cursor.Passes.append_iff.mp hpass
    have hstop : ∀ y ∈ e.rest.head?, isWord y = false := by
      rw [hopen.rest_eq]
      rintro y ⟨⟩
      exact isWord_parenthesis
    exact ⟨_, Cursor.run1_of_passes hrun hne hname hstop, d, hopen, rfl⟩

/-- Nothing is found at the beginning of a word that no parenthesis follows. -/
theorem callName_eq_none (hword : ∀ x ∈ word, isWord x = true) (hc : isWord c = false)
    (hnot : ¬ (c = '(' ∧ word ≠ [])) (last : Option Char) (offset : Nat) (cs : List Char) :
    callName ⟨last, offset, word ++ c :: cs⟩ = none := by
  rw [Option.eq_none_iff_forall_ne_some]
  rintro ⟨name, d⟩ hread
  obtain ⟨taken, ⟨rfl, hne, hname⟩, hpass⟩ := (takes_callName _ _ _).mp hread
  have hrest : word ++ c :: cs = name ++ '(' :: d.rest := by simpa using hpass.rest_eq
  obtain ⟨rfl, hopen, -⟩ := run_inj hword hname hc isWord_parenthesis hrest
  exact hnot ⟨hopen, hne⟩

theorem callName_of_word (hword : ∀ x ∈ word, isWord x = true) (last : Option Char) (offset : Nat) :
    callName ⟨last, offset, word⟩ = none := by
  rw [Option.eq_none_iff_forall_ne_some]
  rintro ⟨name, d⟩ hread
  obtain ⟨taken, ⟨rfl, -⟩, hpass⟩ := (takes_callName _ _ _).mp hread
  have hopen := hword '(' (by simp [show word = _ from hpass.rest_eq])
  rw [isWord_parenthesis] at hopen
  cases hopen

/-- Nothing is found in a word that no parenthesis follows. -/
theorem scanFrom_callName_of_not (hword : ∀ x ∈ word, isWord x = true) (hc : isWord c = false)
    (hnot : ¬ (c = '(' ∧ word ≠ [])) (resume : Nat) (last : Option Char) (offset : Nat)
    (cs : List Char) :
    scanFrom callName resume [] last offset (word ++ c :: cs) =
      scanFrom callName resume [] (some c) (offset + byteSize (word ++ [c])) cs := by
  induction word generalizing last offset with
  | nil =>
    have hnone := callName_eq_none hword hc hnot last offset cs
    rw [List.nil_append] at hnone
    rw [List.nil_append, scanFrom, hnone, List.nil_append, byteSize_cons, byteSize_nil, Nat.add_zero]
    simp
  | cons x word ih =>
    have hnone := callName_eq_none hword hc hnot last offset cs
    obtain ⟨-, hrest⟩ := List.forall_mem_cons.mp hword
    have hshorter : ¬ (c = '(' ∧ word ≠ []) := fun h => hnot ⟨h.1, by simp⟩
    rw [List.cons_append] at hnone
    rw [List.cons_append, scanFrom, hnone, ih hrest hshorter, List.cons_append, byteSize_cons,
      Nat.add_assoc]
    simp

theorem scanFrom_callName_of_word (hword : ∀ x ∈ word, isWord x = true) (resume : Nat)
    (last : Option Char) (offset : Nat) : scanFrom callName resume [] last offset word = [] := by
  induction word generalizing last offset with
  | nil => rfl
  | cons x word ih =>
    have hrest := (List.forall_mem_cons.mp hword).2
    rw [scanFrom, callName_of_word hword, ih hrest]
    simp

theorem scanFrom_callName_of_call (hword : ∀ x ∈ word, isWord x = true) (hne : word ≠ [])
    {resume offset : Nat} (hresume : resume ≤ offset) (last : Option Char) (cs : List Char) :
    scanFrom callName resume [] last offset (word ++ '(' :: cs) =
      ⟨word, offset, offset + byteSize (word ++ ['('])⟩ ::
        scanFrom callName (offset + byteSize (word ++ ['('])) [] (some '(')
          (offset + byteSize (word ++ ['('])) cs := by
  have hread : callName ⟨last, offset, word ++ '(' :: cs⟩ = some (word,
      ⟨(word ++ ['(']).getLast?.or last, offset + byteSize (word ++ ['(']), cs⟩) := by
    refine (takes_callName _ _ _).mpr ⟨word ++ ['('], ⟨rfl, hne, hword⟩, ?_, rfl, rfl⟩
    simp
  generalize hstop : offset + byteSize (word ++ ['(']) = stop at hread ⊢
  obtain ⟨x, word, rfl⟩ := List.exists_cons_of_ne_nil hne
  have hpassed : offset + x.utf8Size + byteSize (word ++ ['(']) = stop := by
    rw [← hstop, List.cons_append, byteSize_cons, Nat.add_assoc]
  have hlater : scanFrom callName stop [] (some x) (offset + x.utf8Size) (word ++ ['('] ++ cs) =
      scanFrom callName stop [] (some '(') stop cs := by
    rw [scanFrom_skip callName hpassed.le, hpassed, List.getLast?_append]
    rfl
  rw [List.append_cons, List.cons_append, List.cons_append] at hread ⊢
  rw [scanFrom, if_neg (by omega), hread]
  simp only
  rw [scanFrom_found, hlater]
  rfl

/-- Where nothing is passed over, a scan finds the calls of a text. -/
theorem map_scanFrom_callName (text : List Char) {resume offset : Nat} (hresume : resume ≤ offset)
    (last : Option Char) :
    (scanFrom callName resume [] last offset text).map (fun f => String.ofList f.value) =
      calls text := by
  induction text using word_induction generalizing resume offset last with
  | hword word hword => rw [scanFrom_callName_of_word hword, calls_of_word hword, List.map_nil]
  | hstep word c cs hword hc ih =>
    rw [calls_append hword hc]
    by_cases hcall : c = '(' ∧ word ≠ []
    · obtain ⟨rfl, hne⟩ := hcall
      rw [scanFrom_callName_of_call hword hne hresume, List.map_cons, ih le_rfl, if_pos ⟨rfl, hne⟩]
      rfl
    · rw [scanFrom_callName_of_not hword hc hcall, ih (Nat.le_add_right_of_le hresume), if_neg hcall]
      rfl

end Finds

/-- The calls of a body are the runs of word characters that cannot be made longer and are directly
followed by an opening parenthesis: all of them, in the order of the text, one for each occurrence. They
are what is found from left to right, without overlap, if word characters and a parenthesis behind them
are searched. The word characters are those of the ASCII block and of a table over all of Unicode. -/
theorem calls_are_words_in_order (body : List Char) :
    (∃ places, ListsCalls body places (calls body)) ∧
    calls body = (scan callName body).map (fun f => String.ofList f.value) ∧
    ∀ c, isWord c = true ↔
      isAsciiWord c = true ∨ ∃ r ∈ wordRanges, r.1 ≤ c.toNat ∧ c.toNat ≤ r.2 := by
  refine ⟨exists_listsCalls body, ?_, fun c => isWord_iff⟩
  exact (map_scanFrom_callName body (Nat.le_refl 0) none).symm

/-- Calls within calls, parentheses without a name, a name with a space behind it, and a name that is
not spelled in ASCII. -/
example : calls "f(g(1))(h) dé2(x) k (f(".toList = ["f", "g", "dé2", "f"] := by decide +kernel

end ServiceChains.Source
