import Mathlib
import ServiceChains.Text.Cursor

/-!
# Places in a text and what lies between them

A byte offset falls between two characters of a text if the text can be cut there. Between two such
offsets there is a part of the text, and the checked slice answers it. A reader passes over a part of
the text that is left at its cursor; the cursor behind it knows the last character of that part and
its size in bytes. The finds of a scan are places at which the reader succeeds, in order and without
overlap, if the reader never goes back.
-/
namespace ServiceChains.Text

theorem byteSize_eq_sum (cs : List Char) : byteSize cs = (cs.map Char.utf8Size).sum := by
  rw [byteSize, List.sum_eq_foldl, List.foldl_map]

@[simp] theorem byteSize_nil : byteSize [] = 0 := rfl

@[simp] theorem byteSize_cons (c : Char) (cs : List Char) :
    byteSize (c :: cs) = c.utf8Size + byteSize cs := by
  simp [byteSize_eq_sum]

@[simp] theorem byteSize_append (cs ds : List Char) :
    byteSize (cs ++ ds) = byteSize cs + byteSize ds := by
  simp [byteSize_eq_sum]

theorem byteSize_pos {cs : List Char} (h : cs ≠ []) : 0 < byteSize cs := by
  cases cs with
  | nil => exact absurd rfl h
  | cons c cs =>
    have hc := c.utf8Size_pos
    simp only [byteSize_cons]
    omega

theorem eq_nil_of_byteSize_eq_zero {cs : List Char} (h : byteSize cs = 0) : cs = [] := by
  by_contra hne
  have hpos := byteSize_pos hne
  omega

/-- The offset `n` falls between two characters of the text, or at one of its ends. -/
def IsBoundary (cs : List Char) (n : Nat) : Prop :=
  ∃ before after, cs = before ++ after ∧ byteSize before = n

namespace IsBoundary

variable {cs : List Char} {n stop : Nat}

theorem byteSize_self (cs : List Char) : IsBoundary cs (byteSize cs) :=
  ⟨cs, [], by simp, rfl⟩

theorem le_byteSize (h : IsBoundary cs n) : n ≤ byteSize cs := by
  obtain ⟨before, after, rfl, rfl⟩ := h
  simp

/-- Two places of a text, one not behind the other, cut it into three parts. -/
theorem exists_between (hn : IsBoundary cs n) (hstop : IsBoundary cs stop) (hle : n ≤ stop) :
    ∃ before inside after, cs = before ++ (inside ++ after) ∧ byteSize before = n ∧
      byteSize before + byteSize inside = stop := by
  obtain ⟨before, after, rfl, rfl⟩ := hn
  obtain ⟨before', after', hcut, rfl⟩ := hstop
  rcases List.append_eq_append_iff.mp hcut with ⟨inside, rfl, rfl⟩ | ⟨inside, rfl, rfl⟩
  · exact ⟨before, inside, after', rfl, rfl, by simp⟩
  · -- The second place lies before the first only if nothing is between them.
    rw [byteSize_append] at hle
    obtain rfl : inside = [] := eq_nil_of_byteSize_eq_zero (by omega)
    exact ⟨before', [], after, by simp, by simp, by simp⟩

end IsBoundary

section Slices

theorem slice?_go_skip (before rest kept : List Char) (keep : Nat) :
    slice?.go (byteSize before) keep kept (before ++ rest) = slice?.go 0 keep kept rest := by
  induction before with
  | nil => rfl
  | cons c before ih =>
    have hc := c.utf8Size_pos
    have hsize : c.utf8Size + byteSize before - c.utf8Size = byteSize before := by omega
    rw [List.cons_append, slice?.go, byteSize_cons, if_neg (by omega), if_neg (by omega),
      if_pos (by omega), hsize, ih]

theorem slice?_go_keep (inside after kept : List Char) :
    slice?.go 0 (byteSize inside) kept (inside ++ after) = some (kept.reverse ++ inside) := by
  induction inside generalizing kept with
  | nil => cases after <;> simp [slice?.go]
  | cons c inside ih =>
    have hc := c.utf8Size_pos
    have hsize : c.utf8Size + byteSize inside - c.utf8Size = byteSize inside := by omega
    rw [List.cons_append, slice?.go, byteSize_cons, if_neg (by omega), if_pos rfl,
      if_pos (by omega), hsize, ih]
    simp

/-- The slice between two places is what stands between them. -/
theorem slice?_append (before inside after : List Char) :
    slice? (byteSize before) (byteSize before + byteSize inside) (before ++ (inside ++ after)) =
      some inside := by
  have hkeep : byteSize before + byteSize inside - byteSize before = byteSize inside := by omega
  rw [slice?, hkeep, slice?_go_skip, slice?_go_keep]
  rfl

theorem exists_slice? {cs : List Char} {start stop : Nat} (hstart : IsBoundary cs start)
    (hstop : IsBoundary cs stop) (hle : start ≤ stop) :
    ∃ inside, slice? start stop cs = some inside := by
  obtain ⟨before, inside, after, rfl, rfl, rfl⟩ := hstart.exists_between hstop hle
  exact ⟨inside, slice?_append before inside after⟩

theorem takeBytes_go_append (before after kept : List Char) :
    takeBytes.go (byteSize before) kept (before ++ after) = kept.reverse ++ before := by
  induction before generalizing kept with
  | nil =>
    cases after with
    | nil => simp [takeBytes.go]
    | cons c after =>
      have hc := c.utf8Size_pos
      rw [List.nil_append, takeBytes.go, if_neg (by simp only [byteSize_nil]; omega)]
      simp
  | cons c before ih =>
    have hsize : c.utf8Size + byteSize before - c.utf8Size = byteSize before := by omega
    rw [List.cons_append, takeBytes.go, byteSize_cons, if_pos (by omega), hsize, ih]
    simp

theorem exists_parts_of_slice?_go {skip keep : Nat} {kept cs part : List Char}
    (h : slice?.go skip keep kept cs = some part) :
    ∃ before inside after, cs = before ++ (inside ++ after) ∧ byteSize before = skip ∧
      byteSize inside = keep ∧ part = kept.reverse ++ inside := by
  induction cs generalizing skip keep kept with
  | nil =>
    rw [slice?.go] at h
    split_ifs at h with hdone
    cases h
    exact ⟨[], [], [], rfl, hdone.1.symm, hdone.2.symm, by simp⟩
  | cons c cs ih =>
    rw [slice?.go] at h
    split_ifs at h with hdone hskip hfits hfits
    · cases h
      exact ⟨[], [], c :: cs, rfl, hdone.1.symm, hdone.2.symm, by simp⟩
    · obtain ⟨before, inside, after, rfl, hbefore, hinside, rfl⟩ := ih h
      obtain rfl : before = [] := eq_nil_of_byteSize_eq_zero hbefore
      refine ⟨[], c :: inside, after, rfl, hskip.symm, ?_, by simp⟩
      rw [byteSize_cons]
      omega
    · obtain ⟨before, inside, after, rfl, hbefore, hinside, rfl⟩ := ih h
      refine ⟨c :: before, inside, after, rfl, ?_, hinside, rfl⟩
      rw [byteSize_cons]
      omega

/-- A slice stands in the text at the offset where it was taken. -/
theorem exists_parts_of_slice? {cs part : List Char} {start stop : Nat}
    (h : slice? start stop cs = some part) :
    ∃ before after, cs = before ++ (part ++ after) ∧ byteSize before = start := by
  obtain ⟨before, inside, after, hcs, hbefore, -, rfl⟩ := exists_parts_of_slice?_go h
  exact ⟨before, after, hcs, hbefore⟩

/-- Up to a place of the text, the checked slice is what is taken without a check. -/
theorem slice?_zero_eq_takeBytes {cs : List Char} {n : Nat} (h : IsBoundary cs n) :
    slice? 0 n cs = some (takeBytes n cs) := by
  obtain ⟨before, after, rfl, rfl⟩ := h
  have hslice := slice?_append [] before after
  simp only [byteSize_nil, Nat.zero_add, List.nil_append] at hslice
  rw [hslice, takeBytes, takeBytes_go_append]
  rfl

end Slices

namespace Cursor

/-- From `c` on, the text `taken` leads to `d`. -/
structure Passes (c : Cursor) (taken : List Char) (d : Cursor) : Prop where
  rest_eq : c.rest = taken ++ d.rest
  offset_eq : d.offset = c.offset + byteSize taken
  before_eq : d.before = taken.getLast?.or c.before

namespace Passes

variable {c d e : Cursor} {taken further : List Char}

theorem refl (c : Cursor) : c.Passes [] c :=
  ⟨rfl, rfl, rfl⟩

theorem trans (h : c.Passes taken d) (h' : d.Passes further e) : c.Passes (taken ++ further) e := by
  refine ⟨?_, ?_, ?_⟩
  · rw [h.rest_eq, h'.rest_eq, List.append_assoc]
  · rw [h'.offset_eq, h.offset_eq, byteSize_append, Nat.add_assoc]
  · rw [h'.before_eq, h.before_eq, List.getLast?_append, Option.or_assoc]

theorem offset_le (h : c.Passes taken d) : c.offset ≤ d.offset := by
  rw [h.offset_eq]
  exact Nat.le_add_right _ _

theorem append_iff : c.Passes (taken ++ further) e ↔ ∃ d, c.Passes taken d ∧ d.Passes further e := by
  constructor
  · intro h
    refine ⟨⟨taken.getLast?.or c.before, c.offset + byteSize taken, further ++ e.rest⟩,
      ⟨?_, rfl, rfl⟩, rfl, ?_, ?_⟩
    · rw [h.rest_eq, List.append_assoc]
    · rw [h.offset_eq, byteSize_append, Nat.add_assoc]
    · rw [h.before_eq, List.getLast?_append, Option.or_assoc]
  · rintro ⟨d, htaken, hfurther⟩
    exact htaken.trans hfurther

theorem unique (h : c.Passes taken d) (h' : c.Passes taken e) : d = e := by
  have hrest : d.rest = e.rest := List.append_cancel_left (h.rest_eq.symm.trans h'.rest_eq)
  have hoffset : d.offset = e.offset := h.offset_eq.trans h'.offset_eq.symm
  have hbefore : d.before = e.before := h.before_eq.trans h'.before_eq.symm
  cases d
  cases e
  simp_all

end Passes

/-- The cursor `d` stands behind `c`, or where `c` stands. -/
def Ahead (c d : Cursor) : Prop :=
  ∃ taken, c.Passes taken d

namespace Ahead

variable {c d e : Cursor}

theorem refl (c : Cursor) : c.Ahead c :=
  ⟨[], .refl c⟩

theorem trans (h : c.Ahead d) (h' : d.Ahead e) : c.Ahead e := by
  obtain ⟨taken, htaken⟩ := h
  obtain ⟨further, hfurther⟩ := h'
  exact ⟨taken ++ further, htaken.trans hfurther⟩

end Ahead

section Readers

variable {c d : Cursor} {p : Char → Bool} {x : Char}

theorem passes_skipWhile (p : Char → Bool) (c : Cursor) :
    c.Passes (c.rest.takeWhile p) (c.skipWhile p) := by
  refine ⟨List.takeWhile_append_dropWhile.symm, rfl, ?_⟩
  simp only [skipWhile]
  rcases (c.rest.takeWhile p).getLast? with _ | x <;> rfl

theorem run1_eq_some_iff {taken : List Char} :
    c.run1 p = some (taken, d) ↔
      taken = c.rest.takeWhile p ∧ taken ≠ [] ∧ d = c.skipWhile p := by
  unfold run1 run
  split
  · rename_i heq
    simp only [Prod.mk.injEq] at heq
    simp only [reduceCtorEq, heq.1, false_iff]
    tauto
  · rename_i hne
    simp only [Option.some.injEq, Prod.mk.injEq]
    constructor
    · rintro ⟨rfl, rfl⟩
      exact ⟨rfl, fun hnil => hne _ (by rw [hnil]), rfl⟩
    · rintro ⟨rfl, -, rfl⟩
      exact ⟨rfl, rfl⟩

theorem passes_of_run1 {taken : List Char} (h : c.run1 p = some (taken, d)) : c.Passes taken d := by
  obtain ⟨rfl, -, rfl⟩ := run1_eq_some_iff.mp h
  exact passes_skipWhile p c

/-- A run that is followed by no further character of its class is read as it stands. -/
theorem takeWhile_of_passes {taken : List Char} (h : c.Passes taken d)
    (htaken : ∀ y ∈ taken, p y = true) (hstop : ∀ y ∈ d.rest.head?, p y = false) :
    c.rest.takeWhile p = taken := by
  rw [h.rest_eq, List.takeWhile_append_of_pos htaken]
  cases hrest : d.rest with
  | nil => simp
  | cons y rest =>
    have hy : ¬ p y = true := by simp [hstop y (by rw [hrest]; rfl)]
    rw [List.takeWhile_cons_of_neg hy, List.append_nil]

theorem skipWhile_of_passes {taken : List Char} (h : c.Passes taken d)
    (htaken : ∀ y ∈ taken, p y = true) (hstop : ∀ y ∈ d.rest.head?, p y = false) :
    c.skipWhile p = d := by
  have hskip := passes_skipWhile p c
  rw [takeWhile_of_passes h htaken hstop] at hskip
  exact hskip.unique h

theorem run1_of_passes {taken : List Char} (h : c.Passes taken d) (hne : taken ≠ [])
    (htaken : ∀ y ∈ taken, p y = true) (hstop : ∀ y ∈ d.rest.head?, p y = false) :
    c.run1 p = some (taken, d) :=
  run1_eq_some_iff.mpr ⟨(takeWhile_of_passes h htaken hstop).symm, hne,
    (skipWhile_of_passes h htaken hstop).symm⟩

theorem char_eq_some_iff : c.char x = some d ↔ c.Passes [x] d := by
  unfold char
  constructor
  · intro h
    split at h
    · rename_i y rest hrest
      split_ifs at h with hy
      cases h
      subst hy
      exact ⟨hrest, by simp, rfl⟩
    · cases h
  · rintro ⟨hrest, hoffset, hbefore⟩
    rw [hrest]
    simp only [List.singleton_append, if_true, Option.some.injEq]
    cases d
    simp_all

theorem text_eq_some_iff {word : List Char} : c.text word = some d ↔ c.Passes word d := by
  induction word generalizing c with
  | nil =>
    simp only [text, Option.some.injEq]
    constructor
    · rintro rfl
      exact .refl c
    · rintro ⟨hrest, hoffset, hbefore⟩
      cases c
      cases d
      simp_all
  | cons y word ih =>
    simp only [text, Option.bind_eq_some_iff, char_eq_some_iff, ih]
    have hsplit : c.Passes ([y] ++ word) d ↔ _ := Passes.append_iff
    exact hsplit.symm

theorem exists_word_of_oneOf {α : Type} {choices : List (List Char × α)} {value : α}
    (h : c.oneOf choices = some (value, d)) :
    ∃ word, (word, value) ∈ choices ∧ c.Passes word d := by
  obtain ⟨⟨word, value'⟩, hmem, hfound⟩ := List.exists_of_findSome?_eq_some h
  obtain ⟨d', htext, hpair⟩ := Option.map_eq_some_iff.mp hfound
  cases hpair
  exact ⟨word, hmem, text_eq_some_iff.mp htext⟩

theorem notMem_takeWhile_bne (close : Char) (cs : List Char) :
    close ∉ cs.takeWhile (· != close) := by
  intro hmem
  have hother := List.mem_takeWhile_imp hmem
  simp at hother

theorem passes_of_upTo {close : Char} {inside : List Char} (h : c.upTo close = some (inside, d)) :
    close ∉ inside ∧ c.Passes (inside ++ [close]) d := by
  simp only [upTo, run, Option.map_eq_some_iff, char_eq_some_iff, Prod.mk.injEq] at h
  obtain ⟨d', hclose, rfl, rfl⟩ := h
  exact ⟨notMem_takeWhile_bne close c.rest, (passes_skipWhile _ c).trans hclose⟩

theorem passes_of_upTo1 {close : Char} {inside : List Char} (h : c.upTo1 close = some (inside, d)) :
    inside ≠ [] ∧ close ∉ inside ∧ c.Passes (inside ++ [close]) d := by
  simp only [upTo1, Option.bind_eq_bind, Option.bind_eq_some_iff, char_eq_some_iff] at h
  obtain ⟨⟨taken, e⟩, hrun, d', hclose, hpure⟩ := h
  cases hpure
  obtain ⟨rfl, hne, rfl⟩ := run1_eq_some_iff.mp hrun
  exact ⟨hne, notMem_takeWhile_bne close c.rest, (passes_skipWhile _ c).trans hclose⟩

end Readers

end Cursor

section Scans

variable {α : Type} {read : Reader α}

/-- Earlier finds stand in front of what a scan still finds. -/
theorem scanFrom_found (read : Reader α) (resume : Nat) (found : List (Found α))
    (before : Option Char) (offset : Nat) (cs : List Char) :
    scanFrom read resume found before offset cs =
      found.reverse ++ scanFrom read resume [] before offset cs := by
  induction cs generalizing resume found before offset with
  | nil => simp [scanFrom]
  | cons c cs ih =>
    rw [scanFrom, scanFrom]
    split_ifs with hskip
    · exact ih ..
    · split
      · rename_i value after _
        rw [ih, ih _ [_]]
        simp
      · exact ih ..

/-- Where a scan goes on, it does not look at what it has passed over. -/
theorem scanFrom_skip (read : Reader α) {resume offset : Nat} {skipped : List Char}
    (h : offset + byteSize skipped ≤ resume) (last : Option Char) (rest : List Char) :
    scanFrom read resume [] last offset (skipped ++ rest) =
      scanFrom read resume [] (skipped.getLast?.or last) (offset + byteSize skipped) rest := by
  induction skipped generalizing last offset with
  | nil => rfl
  | cons c skipped ih =>
    have hsize := c.utf8Size_pos
    rw [byteSize_cons] at h
    rw [List.cons_append, scanFrom, if_pos (by omega), ih (by omega), byteSize_cons, Nat.add_assoc,
      List.getLast?_cons]
    cases skipped.getLast? <;> rfl

/-- The place of the text at which a scan found something. -/
structure FoundAt (read : Reader α) (text : List Char) (f : Found α) (before rest : List Char)
    (after : Cursor) : Prop where
  text_eq : text = before ++ rest
  start_eq : f.start = byteSize before
  read_eq : read ⟨before.getLast?, byteSize before, rest⟩ = some (f.value, after)
  stop_eq : f.stop = after.offset

theorem foundAt_of_mem_scanFrom {before rest : List Char} {resume : Nat} {f : Found α}
    (h : f ∈ scanFrom read resume [] before.getLast? (byteSize before) rest) :
    ∃ before' rest' after, FoundAt read (before ++ rest) f before' rest' after := by
  induction rest generalizing before resume with
  | nil => simp [scanFrom] at h
  | cons c rest ih =>
    -- The scan goes on behind `c`, whether it found something here or not.
    have hnext : ∀ resume, f ∈ scanFrom read resume [] (some c) (byteSize before + c.utf8Size) rest →
        ∃ before' rest' after, FoundAt read (before ++ c :: rest) f before' rest' after := by
      intro resume hmem
      have hlast : (before ++ [c]).getLast? = some c := by simp
      have hsize : byteSize (before ++ [c]) = byteSize before + c.utf8Size := by simp
      rw [← hlast, ← hsize] at hmem
      simpa using ih hmem
    rw [scanFrom] at h
    split_ifs at h with hskip
    · exact hnext _ h
    · split at h
      · rename_i value after hread
        rw [scanFrom_found] at h
        rcases List.mem_append.mp h with hhere | hlater
        · simp only [List.reverse_singleton, List.mem_singleton] at hhere
          subst hhere
          exact ⟨before, c :: rest, after, rfl, rfl, hread, rfl⟩
        · exact hnext _ hlater
      · exact hnext _ h

/-- A find is made where the reader succeeds. -/
theorem foundAt_of_mem_scan {text : List Char} {f : Found α} (h : f ∈ scan read text) :
    ∃ before rest after, FoundAt read text f before rest after := by
  have hstart : f ∈ scanFrom read 0 [] ([] : List Char).getLast? (byteSize []) text := h
  exact foundAt_of_mem_scanFrom hstart

/-- The first find is made at a place of the text where the reader succeeds. -/
theorem exists_place_of_first? {text : List Char} {value : α} (h : first? read text = some value) :
    ∃ before rest after, text = before ++ rest ∧
      read ⟨before.getLast?, byteSize before, rest⟩ = some (value, after) := by
  obtain ⟨f, hf, rfl⟩ := Option.map_eq_some_iff.mp h
  obtain ⟨before, rest, after, hfound⟩ := foundAt_of_mem_scan (List.mem_of_mem_head? hf)
  exact ⟨before, rest, after, hfound.text_eq, hfound.read_eq⟩

theorem exists_read_of_first? {text : List Char} {value : α} (h : first? read text = some value) :
    ∃ c d, read c = some (value, d) := by
  obtain ⟨before, rest, after, -, hread⟩ := exists_place_of_first? h
  exact ⟨_, after, hread⟩

variable (hforward : ∀ c value d, read c = some (value, d) → c.offset ≤ d.offset)

include hforward

/-- No find begins before the offset at which the scan may resume. -/
theorem resume_le_start {resume offset : Nat} {before : Option Char} {cs : List Char} {f : Found α}
    (h : f ∈ scanFrom read resume [] before offset cs) : resume ≤ f.start := by
  induction cs generalizing resume before offset with
  | nil => simp [scanFrom] at h
  | cons c cs ih =>
    rw [scanFrom] at h
    split_ifs at h with hskip
    · exact ih h
    · split at h
      · rename_i value after hread
        have hle := hforward _ _ _ hread
        rw [scanFrom_found] at h
        rcases List.mem_append.mp h with hhere | hlater
        · simp only [List.reverse_singleton, List.mem_singleton] at hhere
          subst hhere
          simp only
          omega
        · have hlater := ih hlater
          simp only at hle
          omega
      · exact ih h

theorem pairwise_scanFrom (resume offset : Nat) (before : Option Char) (cs : List Char) :
    (scanFrom read resume [] before offset cs).Pairwise fun f next => f.stop ≤ next.start := by
  induction cs generalizing resume before offset with
  | nil => simp [scanFrom]
  | cons c cs ih =>
    rw [scanFrom]
    split_ifs with hskip
    · exact ih ..
    · split
      · rename_i value after hread
        rw [scanFrom_found]
        apply List.pairwise_cons.mpr
        exact ⟨fun f hf => resume_le_start hforward hf, ih ..⟩
      · exact ih ..

/-- The finds of a scan are in order and do not overlap. -/
theorem pairwise_scan (text : List Char) :
    (scan read text).Pairwise fun f next => f.stop ≤ next.start :=
  pairwise_scanFrom hforward 0 0 none text

end Scans

end ServiceChains.Text
