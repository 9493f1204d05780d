import ServiceChains.Proofs.CallGraph
import ServiceChains.Proofs.Source.Region
import ServiceChains.Source.Mapping

/-!
# Method bodies lie between characters

Headers are searched in the text with its comments blanked, where a character of a comment may have
become several spaces. Still every header begins and ends between two characters of the source: it
ends behind a brace, and the spaces in front of it belong to it from the first one on, unless another
header ended there. So the body of each method is a part of the source, bodies follow each other
without overlap, and no call in a body is lost to a bad offset. Likewise the declaration of a type
begins between two characters.
-/
namespace ServiceChains.Source

open Text Cursor

section Readers

variable {c d : Cursor}

theorem ahead_headerStart (h : headerStart c = some d) : c.Ahead d := by
  unfold headerStart at h
  split at h
  · cases h
  · rename_i x rest hrest
    split_ifs at h with hx
    · cases h
      exact ⟨[x], hrest, by simp, rfl⟩
    · obtain ⟨⟨_, d'⟩, hword, rfl⟩ := Option.map_eq_some_iff.mp h
      obtain ⟨word, -, hpass⟩ := exists_word_of_oneOf hword
      exact ⟨word, hpass⟩

theorem ahead_skipBrackets (before : Option Char) (offset : Nat) (cs : List Char) :
    Ahead ⟨before, offset, cs⟩ (skipBrackets before offset cs) := by
  fun_induction skipBrackets before offset cs with
  | case1 before offset rest ih =>
    have hpair : Passes ⟨before, offset, '[' :: ']' :: rest⟩ ['[', ']']
        ⟨some ']', offset + 2, rest⟩ := ⟨rfl, rfl, rfl⟩
    exact Ahead.trans ⟨_, hpair⟩ ih
  | case2 before offset rest => exact .refl _

/-- Type arguments end behind what was read, whatever stands before them. -/
theorem ahead_of_mem_argumentEnds {before : List Char} {ends : List (List Char × Cursor)}
    {offset : Nat} {cs : List Char} {last : List Char × Cursor}
    (h : last ∈ argumentEnds before ends offset cs) (b : Option Char) :
    last ∈ ends ∨ Ahead ⟨b, offset, cs⟩ last.2 := by
  induction cs generalizing before ends offset b with
  | nil => exact .inl h
  | cons x rest ih =>
    have hx : Passes ⟨b, offset, x :: rest⟩ [x] ⟨some x, offset + x.utf8Size, rest⟩ :=
      ⟨rfl, by simp, rfl⟩
    simp only [argumentEnds] at h
    split_ifs at h with hargument hclose
    · rcases ih h (some x) with hmem | hahead
      · rcases List.mem_cons.mp hmem with rfl | hmem
        · exact .inr ⟨_, hx⟩
        · exact .inl hmem
      · exact .inr (Ahead.trans ⟨_, hx⟩ hahead)
    · rcases ih h (some x) with hmem | hahead
      · exact .inl hmem
      · exact .inr (Ahead.trans ⟨_, hx⟩ hahead)
    · exact .inl h

/-- A header ends with a brace. -/
theorem brace_of_headerTail {name : List Char} (h : headerTail c = some (name, d)) :
    ∃ e, c.Ahead e ∧ e.Passes ['{'] d := by
  simp only [headerTail, Option.bind_eq_bind, Option.bind_eq_some_iff, Prod.exists] at h
  obtain ⟨_, c₁, hblank, _, c₂, hname, c₃, hopen, _, c₄, hclose, hend⟩ := h
  have hparameters : c.Ahead (c₄.skipWhile (· == ' ')) :=
    ⟨_, (passes_of_run1 hblank).trans <| (passes_of_run1 hname).trans <|
      (passes_skipWhile _ c₂).trans <| (char_eq_some_iff.mp hopen).trans <|
      (passes_of_upTo hclose).2.trans (passes_skipWhile _ c₄)⟩
  split at hend
  · rename_i c₅ hthrows
    simp only [Option.bind_eq_some_iff, Option.map_eq_some_iff, char_eq_some_iff] at hend
    obtain ⟨_, ⟨⟨_, c₆⟩, hexceptions, rfl⟩, _, hbrace, hpure⟩ := hend
    cases hpure
    have hthrown : (c₄.skipWhile (· == ' ')).Ahead c₆ :=
      ⟨_, (text_eq_some_iff.mp hthrows).trans (passes_of_run1 hexceptions)⟩
    exact ⟨c₆, hparameters.trans hthrown, hbrace⟩
  · simp only [Option.bind_some, Option.bind_eq_some_iff, char_eq_some_iff] at hend
    obtain ⟨_, hbrace, hpure⟩ := hend
    cases hpure
    exact ⟨_, hparameters, hbrace⟩

theorem brace_of_signature {value : List Char × List Char} (h : signature c = some (value, d)) :
    ∃ e, c.Ahead e ∧ e.Passes ['{'] d := by
  simp only [signature, Option.bind_eq_bind, Option.bind_eq_some_iff, Prod.exists] at h
  obtain ⟨_, c₁, hspaces, _, c₂, htype, hend⟩ := h
  have hahead : c.Ahead c₂ := ⟨_, (passes_of_run1 hspaces).trans (passes_of_run1 htype)⟩
  split at hend
  · rename_i rest hrest
    obtain ⟨last, hmem, hlast⟩ := List.exists_of_findSome?_eq_some hend
    simp only [Option.bind_eq_some_iff] at hlast
    obtain ⟨⟨_, _⟩, htail, hpure⟩ := hlast
    cases hpure
    obtain ⟨e, htype, hbrace⟩ := brace_of_headerTail htail
    have hangle : c₂.Passes ['<'] ⟨some '<', c₂.offset + 1, rest⟩ := ⟨hrest, rfl, rfl⟩
    have harguments : Ahead ⟨some '<', c₂.offset + 1, rest⟩ last.2 :=
      (ahead_of_mem_argumentEnds hmem (some '<')).resolve_left List.not_mem_nil
    have hbrackets := ahead_skipBrackets last.2.before last.2.offset last.2.rest
    have hbehind : c₂.Ahead e :=
      Ahead.trans ⟨_, hangle⟩ (harguments.trans (hbrackets.trans htype))
    exact ⟨e, hahead.trans hbehind, hbrace⟩
  · simp only [Option.bind_eq_some_iff] at hend
    obtain ⟨⟨_, _⟩, htail, hpure⟩ := hend
    cases hpure
    obtain ⟨e, hbehind, hbrace⟩ := brace_of_headerTail htail
    exact ⟨e, hahead.trans hbehind, hbrace⟩

/-- A header is a part of the text that ends in a brace. -/
theorem passes_of_anyHeader {value : List Char × List Char} (h : anyHeader c = some (value, d)) :
    ∃ taken, c.Passes taken d ∧ taken.getLast? = some '{' := by
  obtain ⟨c₁, hstart, hsignature⟩ := Option.bind_eq_some_iff.mp h
  obtain ⟨e, hahead, hbrace⟩ := brace_of_signature hsignature
  obtain ⟨taken, hpass⟩ := (ahead_headerStart hstart).trans hahead
  exact ⟨taken ++ ['{'], hpass.trans hbrace, by simp⟩

theorem header_eq_some_iff {result : (List Char × List Char) × Cursor} :
    header c = some result ↔
      (c.sees (· == ' ') && c.follows isBlank) = false ∧ anyHeader c = some result := by
  unfold header
  split_ifs with hpassed <;> simp [hpassed]

end Readers

section Leftmost

theorem isBlank_space : isBlank ' ' = true := by decide

theorem isBlank_brace : isBlank '{' = false := by decide

/-- Spaces are read alike from one space further in front. -/
theorem run1_space_cons {before : Option Char} {offset : Nat} {cs taken : List Char} {d : Cursor}
    (h : run1 (· == ' ') ⟨some ' ', offset + 1, cs⟩ = some (taken, d)) :
    run1 (· == ' ') ⟨before, offset, ' ' :: cs⟩ = some (' ' :: taken, d) := by
  obtain ⟨rfl, hne, rfl⟩ := run1_eq_some_iff.mp h
  refine run1_eq_some_iff.mpr ⟨by simp, by simp, ?_⟩
  have hlast := List.getLast?_eq_some_getLast hne
  simp only [skipWhile, List.takeWhile_cons, beq_self_eq_true, if_true, List.dropWhile_cons,
    byteSize_cons, List.getLast?_cons, hlast]
  simp only [Option.getD_some, Cursor.mk.injEq, and_true]
  exact ⟨rfl, by rw [show ' '.utf8Size = 1 from rfl]; omega⟩

/-- A header that begins at a space behind a blank also begins at the blank. -/
theorem anyHeader_earlier {x : Char} (hx : isBlank x = true) {before : Option Char} {offset : Nat}
    {cs : List Char} {result : (List Char × List Char) × Cursor}
    (h : anyHeader ⟨some x, offset + x.utf8Size, ' ' :: cs⟩ = some result) :
    anyHeader ⟨before, offset, x :: ' ' :: cs⟩ = some result := by
  simp only [anyHeader, headerStart, isBlank_space, hx, if_true, Option.bind_some] at h ⊢
  simp only [signature, Option.bind_eq_bind, Option.bind_eq_some_iff] at h ⊢
  obtain ⟨⟨taken, d⟩, hspaces, hrest⟩ := h
  exact ⟨(' ' :: taken, d), run1_space_cons hspaces, hrest⟩

/-- Where a scan for headers stands: inside an earlier header, which ends in a brace, or outside,
where no header begins at a space behind a blank. -/
structure Standing (resume : Nat) (before : Option Char) (offset : Nat) (cs : List Char) : Prop where
  inside : offset < resume → ∃ header rest, cs = header ++ rest ∧
    offset + byteSize header = resume ∧ header.getLast? = some '{'
  outside : resume ≤ offset → ∀ x rest, before = some x → isBlank x = true → cs = ' ' :: rest →
    anyHeader ⟨before, offset, cs⟩ = none

/-- One character further in a header. -/
theorem standing_of_header {resume offset : Nat} {c : Char} {cs header rest : List Char}
    (hcut : c :: cs = header ++ rest) (hsize : offset + byteSize header = resume)
    (hbrace : header.getLast? = some '{') :
    Standing resume (some c) (offset + c.utf8Size) cs := by
  cases header with
  | nil => cases hbrace
  | cons y header =>
    obtain ⟨rfl, rfl⟩ := List.cons.inj hcut
    rw [byteSize_cons] at hsize
    by_cases hlast : header = []
    · -- The brace is passed, and it is no blank.
      subst hlast
      have hc : c = '{' := by simpa using hbrace
      refine ⟨fun hlt => ?_, fun _ x _ hx hblank _ => ?_⟩
      · simp only [byteSize_nil] at hsize
        omega
      · rw [← Option.some.inj hx, hc, isBlank_brace] at hblank
        cases hblank
    · have hpos := byteSize_pos hlast
      refine ⟨fun _ => ⟨header, rest, rfl, by omega, ?_⟩, fun hle => by omega⟩
      rwa [List.getLast?_cons_of_ne_nil hlast] at hbrace

theorem scanFrom_header_eq {resume offset : Nat} {before : Option Char} {cs : List Char}
    (h : Standing resume before offset cs) (found : List (Found (List Char × List Char))) :
    scanFrom header resume found before offset cs =
      scanFrom anyHeader resume found before offset cs := by
  induction cs generalizing resume offset before found with
  | nil => rfl
  | cons c cs ih =>
    rw [scanFrom, scanFrom]
    by_cases hskip : offset < resume
    · obtain ⟨header, rest, hcut, hsize, hbrace⟩ := h.inside hskip
      rw [if_pos hskip, if_pos hskip]
      exact ih (standing_of_header hcut hsize hbrace) found
    have hsame : header ⟨before, offset, c :: cs⟩ = anyHeader ⟨before, offset, c :: cs⟩ := by
      unfold header
      split_ifs with hpassed
      · simp only [sees, follows, Bool.and_eq_true, beq_iff_eq] at hpassed
        obtain ⟨rfl, hblank⟩ := hpassed
        cases before with
        | none => cases hblank
        | some x => exact (h.outside (by omega) x cs rfl hblank rfl).symm
      · rfl
    rw [if_neg hskip, if_neg hskip, hsame]
    cases hread : anyHeader ⟨before, offset, c :: cs⟩ with
    | none =>
      -- A header at the next space would have been found here.
      refine ih ⟨fun hlt => by omega, ?_⟩ found
      rintro hle x rest hx hblank rfl
      cases hx
      by_contra hnone
      obtain ⟨result, hresult⟩ := Option.ne_none_iff_exists'.mp hnone
      rw [anyHeader_earlier hblank hresult] at hread
      cases hread
    | some result =>
      obtain ⟨value, after⟩ := result
      obtain ⟨taken, hpass, hbrace⟩ := passes_of_anyHeader hread
      exact ih (standing_of_header hpass.rest_eq hpass.offset_eq.symm hbrace) _

/-- Passing over a space behind a blank loses no header. -/
theorem scan_header_eq (cs : List Char) : scan header cs = scan anyHeader cs :=
  scanFrom_header_eq ⟨fun hlt => by omega, fun _ _ _ hx => by cases hx⟩ []

end Leftmost

section Places

/-- Where the headers of a source stand. -/
structure Placed (source : List Char) (hs : List Header) : Prop where
  ordered : hs.Pairwise fun h next => h.stop ≤ next.start
  start_le_stop : ∀ h ∈ hs, h.start ≤ h.stop
  start_between : ∀ h ∈ hs, IsBoundary source h.start
  stop_between : ∀ h ∈ hs, IsBoundary source h.stop

variable {source : List Char}

/-- A header of a blanked text begins and ends between characters of the source. -/
theorem isBoundary_of_mem_scan_header {f : Found (List Char × List Char)}
    (hf : f ∈ scan header (blank false source)) :
    f.start ≤ f.stop ∧ IsBoundary source f.start ∧ IsBoundary source f.stop := by
  obtain ⟨before, rest, after, hfound⟩ := foundAt_of_mem_scan hf
  obtain ⟨hpassed, hany⟩ := header_eq_some_iff.mp hfound.read_eq
  obtain ⟨taken, hpass, hbrace⟩ := passes_of_anyHeader hany
  have hrest : rest = taken ++ after.rest := hpass.rest_eq
  have hstop : f.stop = byteSize (before ++ taken) := by
    rw [hfound.stop_eq, hpass.offset_eq, byteSize_append]
  refine ⟨?_, ?_, ?_⟩
  · rw [hfound.start_eq, hstop, byteSize_append]
    omega
  · rw [hfound.start_eq]
    apply isBoundary_of_blank hfound.text_eq
    by_contra hspaces
    simp only [not_or, not_not] at hspaces
    obtain ⟨hlast, hhead⟩ := hspaces
    obtain ⟨rest', rfl⟩ := List.head?_eq_some_iff.mp hhead
    simp [sees, follows, hlast, isBlank_space] at hpassed
  · have hcut : blank false source = (before ++ taken) ++ after.rest := by
      rw [hfound.text_eq, hrest, List.append_assoc]
    have hne : taken ≠ [] := by
      rintro rfl
      cases hbrace
    rw [hstop]
    apply isBoundary_of_blank hcut
    rw [List.getLast?_append_of_ne_nil _ hne, hbrace]
    simp

theorem header_forward (c : Cursor) (value : List Char × List Char) (d : Cursor)
    (h : header c = some (value, d)) : c.offset ≤ d.offset := by
  obtain ⟨taken, hpass, -⟩ := passes_of_anyHeader (header_eq_some_iff.mp h).2
  exact hpass.offset_le

theorem placed_headers (source : List Char) : Placed source (headers (blank false source)) := by
  have hmem : ∀ h ∈ headers (blank false source),
      ∃ f ∈ scan header (blank false source), h.start = f.start ∧ h.stop = f.stop := by
    intro h hh
    obtain ⟨f, hf, hkeep⟩ := List.mem_filterMap.mp hh
    dsimp only at hkeep
    split_ifs at hkeep
    cases hkeep
    exact ⟨f, hf, rfl, rfl⟩
  refine ⟨?_, ?_, ?_, ?_⟩
  · apply List.Pairwise.filterMap _ _ (pairwise_scan header_forward _)
    intro f next hle h hkeep h' hkeep'
    dsimp only at hkeep hkeep'
    split_ifs at hkeep hkeep'
    cases hkeep
    cases hkeep'
    exact hle
  · intro h hh
    obtain ⟨f, hf, hstart, hstop⟩ := hmem h hh
    rw [hstart, hstop]
    exact (isBoundary_of_mem_scan_header hf).1
  · intro h hh
    obtain ⟨f, hf, hstart, -⟩ := hmem h hh
    rw [hstart]
    exact (isBoundary_of_mem_scan_header hf).2.1
  · intro h hh
    obtain ⟨f, hf, -, hstop⟩ := hmem h hh
    rw [hstop]
    exact (isBoundary_of_mem_scan_header hf).2.2

theorem Placed.tail {h : Header} {hs : List Header} (hplaced : Placed source (h :: hs)) :
    Placed source hs :=
  ⟨(List.pairwise_cons.mp hplaced.ordered).2,
    fun h' hh => hplaced.start_le_stop h' (List.mem_cons_of_mem _ hh),
    fun h' hh => hplaced.start_between h' (List.mem_cons_of_mem _ hh),
    fun h' hh => hplaced.stop_between h' (List.mem_cons_of_mem _ hh)⟩

/-- Bodies begin behind headers. -/
theorem exists_header_of_mem_spans {size : Nat} {hs : List Header} {m : MethodSpan}
    (hm : m ∈ spans size hs) : ∃ h ∈ hs, m.start = h.stop := by
  fun_induction spans size hs with
  | case1 => cases hm
  | case2 h =>
    rw [List.mem_singleton.mp hm]
    exact ⟨h, by simp, rfl⟩
  | case3 h next rest ih =>
    rcases List.mem_cons.mp hm with rfl | hm
    · exact ⟨h, by simp, rfl⟩
    · obtain ⟨h', hh', hstart⟩ := ih hm
      exact ⟨h', List.mem_cons_of_mem _ hh', hstart⟩

/-- A body lies between two characters. -/
theorem isBoundary_of_mem_spans {hs : List Header} (hplaced : Placed source hs) {m : MethodSpan}
    (hm : m ∈ spans (byteSize source) hs) :
    m.start ≤ m.stop ∧ IsBoundary source m.start ∧ IsBoundary source m.stop := by
  fun_induction spans (byteSize source) hs with
  | case1 => cases hm
  | case2 h =>
    have hstop := hplaced.stop_between h (by simp)
    rw [List.mem_singleton.mp hm]
    simp only [max_eq_left hstop.le_byteSize]
    exact ⟨hstop.le_byteSize, hstop, .byteSize_self source⟩
  | case3 h next rest ih =>
    have hle := (List.pairwise_cons.mp hplaced.ordered).1 next (by simp)
    rcases List.mem_cons.mp hm with rfl | hm
    · simp only [max_eq_left hle]
      exact ⟨hle, hplaced.stop_between h (by simp), hplaced.start_between next (by simp)⟩
    · exact ih hplaced.tail hm

/-- Bodies follow each other without overlap. -/
theorem pairwise_spans {hs : List Header} (hplaced : Placed source hs) (size : Nat) :
    (spans size hs).Pairwise fun m next => m.stop ≤ next.start := by
  fun_induction spans size hs with
  | case1 => exact List.Pairwise.nil
  | case2 h => exact List.pairwise_singleton _ _
  | case3 h next rest ih =>
    obtain ⟨hfirst, hrest⟩ := List.pairwise_cons.mp hplaced.ordered
    refine List.pairwise_cons.mpr ⟨?_, ih hplaced.tail⟩
    intro m hm
    -- The body ends where `next` begins, and later bodies begin behind `next` or a later header.
    obtain ⟨h', hh', hstart⟩ := exists_header_of_mem_spans hm
    have hnext := hplaced.start_le_stop next (by simp)
    have hlater : next.start ≤ h'.stop := by
      rcases List.mem_cons.mp hh' with rfl | hh'
      · exact hnext
      · have hle := (List.pairwise_cons.mp hrest).1 h' hh'
        have hends := hplaced.start_le_stop h' (by simp [hh'])
        omega
    simp only [max_eq_left (hfirst next (by simp)), hstart]
    exact hlater

/-- The last body ends with the text. -/
theorem stop_of_mem_getLast?_spans {hs : List Header} (hplaced : Placed source hs) {m : MethodSpan}
    (hm : m ∈ (spans (byteSize source) hs).getLast?) : m.stop = byteSize source := by
  fun_induction spans (byteSize source) hs with
  | case1 => cases hm
  | case2 h =>
    have hstop := hplaced.stop_between h (by simp)
    rw [List.getLast?_singleton, Option.mem_some_iff] at hm
    rw [← hm]
    exact max_eq_left hstop.le_byteSize
  | case3 h next rest ih =>
    have hne : spans (byteSize source) (next :: rest) ≠ [] := by
      cases rest <;> simp [spans]
    rw [List.getLast?_cons_of_ne_nil hne] at hm
    exact ih hplaced.tail hm

/-- The declaration of a type begins between two characters of the code. -/
theorem isBoundary_of_mem_scan_typeDeclaration {code : List Char} {literals : Bool} {f : Found Unit}
    (hf : f ∈ scan typeDeclaration (blank literals code)) : IsBoundary code f.start := by
  obtain ⟨before, rest, after, hfound⟩ := foundAt_of_mem_scan hf
  have hread := hfound.read_eq
  unfold typeDeclaration at hread
  split_ifs at hread with hword
  · cases hread
  · simp only [Option.bind_eq_bind, Option.bind_eq_some_iff] at hread
    obtain ⟨⟨_, c₁⟩, hkeyword, -⟩ := hread
    obtain ⟨word, hmem, hpass⟩ := exists_word_of_oneOf hkeyword
    have hletters : ∀ choice ∈ ["class", "interface", "enum"].map fun word => (word.toList, ()),
        choice.1.head?.any (· != ' ') = true := by decide
    have hhead : rest.head? ≠ some ' ' := by
      have hrest : rest = word ++ c₁.rest := hpass.rest_eq
      have hletter := hletters _ hmem
      cases hx : word.head? with
      | none => simp [hx] at hletter
      | some x =>
        rw [hrest, List.head?_append, hx]
        simpa [hx] using hletter
    rw [hfound.start_eq]
    exact isBoundary_of_blank hfound.text_eq (.inr hhead)

end Places

/-- The bodies of the methods of a source lie in the text, in order and without overlap, and the last
one ends with it. They begin and end between characters of the source, so each is a part of the source
and all its calls are in the call graph. The declaration of a type begins between characters of the
text without comments, so what stands in front of it can be cut off. The headers are those that a scan
from left to right finds if it tries every place outside an earlier header. -/
theorem methods_lie_between_characters (source : List Char) :
    (∀ m ∈ methods source, m.start ≤ m.stop ∧ m.stop ≤ byteSize source ∧
      IsBoundary source m.start ∧ IsBoundary source m.stop) ∧
    (methods source).Pairwise (fun m next => m.stop ≤ next.start) ∧
    (∀ m ∈ (methods source).getLast?, m.stop = byteSize source) ∧
    (∀ m ∈ methods source, ∃ body, slice? m.start m.stop source = some body ∧
      ∀ (g : CallGraph), ∀ callee ∈ calls body, (m.name, callee) ∈ (g.addSource source).edges) ∧
    (∀ type ∈ (scan typeDeclaration (blank true (blank false source))).head?,
      IsBoundary (blank false source) type.start ∧
      slice? 0 type.start (blank false source) =
        some (takeBytes type.start (blank false source))) ∧
    scan header (blank false source) = scan anyHeader (blank false source) := by
  have hplaced := placed_headers source
  refine ⟨?_, pairwise_spans hplaced _, ?_, ?_, ?_, scan_header_eq _⟩
  · intro m hm
    obtain ⟨hle, hstart, hstop⟩ := isBoundary_of_mem_spans hplaced hm
    exact ⟨hle, hstop.le_byteSize, hstart, hstop⟩
  · intro m hm
    exact stop_of_mem_getLast?_spans hplaced hm
  · intro m hm
    obtain ⟨hle, hstart, hstop⟩ := isBoundary_of_mem_spans hplaced hm
    obtain ⟨body, hbody⟩ := exists_slice? hstart hstop hle
    refine ⟨body, hbody, ?_⟩
    intro g callee hcallee
    have hcalled : callee ∈ calls ((slice? m.start m.stop source).getD []) := by
      rwa [hbody, Option.getD_some]
    exact g.mem_edges_addSource.mpr (.inr ⟨m, hm, rfl, hcalled⟩)
  · intro type htype
    have hboundary := isBoundary_of_mem_scan_typeDeclaration (List.mem_of_mem_head? htype)
    exact ⟨hboundary, slice?_zero_eq_takeBytes hboundary⟩

/-- A class with two methods, with characters of two bytes in the comments before and between them. -/
def commentedSource : List Char :=
  "/*ü*/class A \x7b public void go() \x7brun();\x7d/*ü*/ int run() \x7b\x7d\x7d".toList

/-- The first body ends where the comment begins, and its call is in the call graph. -/
theorem methods_lie_between_characters_commented :
    methods commentedSource = [⟨"go", 34, 41⟩, ⟨"run", 59, 61⟩] ∧
      IsBoundary commentedSource 41 ∧ 41 ≤ 59 ∧ 61 = byteSize commentedSource ∧
      ("go", "run") ∈ (({} : CallGraph).addSource commentedSource).edges ∧
      (scan typeDeclaration (blank true (blank false commentedSource))).head? = some ⟨(), 6, 13⟩ ∧
      slice? 0 6 (blank false commentedSource) = some (takeBytes 6 (blank false commentedSource)) := by
  obtain ⟨hplaces, hordered, hlast, hbodies, htype, -⟩ :=
    methods_lie_between_characters commentedSource
  have hmethods : methods commentedSource = [⟨"go", 34, 41⟩, ⟨"run", 59, 61⟩] := by cbv
  have hdeclared : (scan typeDeclaration (blank true (blank false commentedSource))).head? =
      some ⟨(), 6, 13⟩ := by cbv
  have hslice : slice? 34 41 commentedSource = some "run();\x7d".toList := by cbv
  have hcalls : calls "run();\x7d".toList = ["run"] := by cbv
  rw [hmethods] at hplaces hordered hlast hbodies
  obtain ⟨body, hbody, hedges⟩ := hbodies ⟨"go", 34, 41⟩ (by simp)
  have heq : body = "run();\x7d".toList := Option.some.inj (hbody.symm.trans hslice)
  subst heq
  have hgo := hplaces ⟨"go", 34, 41⟩ (by simp)
  refine ⟨hmethods, hgo.2.2.2, ?_, hlast ⟨"run", 59, 61⟩ rfl, ?_, hdeclared, ?_⟩
  · exact (List.pairwise_cons.mp hordered).1 ⟨"run", 59, 61⟩ (by simp)
  · exact hedges {} "run" (by rw [hcalls]; exact List.mem_singleton_self "run")
  · exact (htype ⟨(), 6, 13⟩ hdeclared).2

end ServiceChains.Source
