import Mathlib
import ServiceChains.Path
import ServiceChains.Proofs.Text.Blank

/-!
# Parts of joined paths

The pieces between the slashes of a joined path are those of its two parts, wherever slashes are
doubled or stand at an end. So a joined path stands for the standard input only if its first part
does. The pieces of a text are the parts without a separator that have separators or the ends of the
text around them.
-/
namespace ServiceChains.Path

section Pieces

variable {sep : Char}

theorem splitAtChar_ne_nil (sep : Char) (cs : List Char) : splitAtChar sep cs ≠ [] := by
  cases cs with
  | nil => simp [splitAtChar]
  | cons c cs =>
    rw [splitAtChar]
    split_ifs
    · simp
    · split <;> simp

theorem splitAtChar_cons_of_ne {c : Char} (hc : c ≠ sep) (cs : List Char) :
    ∃ part parts, splitAtChar sep cs = part :: parts ∧
      splitAtChar sep (c :: cs) = (c :: part) :: parts := by
  obtain ⟨part, parts, hparts⟩ := List.exists_cons_of_ne_nil (splitAtChar_ne_nil sep cs)
  refine ⟨part, parts, hparts, ?_⟩
  rw [splitAtChar, if_neg hc, hparts]

theorem splitAtChar_append (cs ds : List Char) :
    splitAtChar sep (cs ++ sep :: ds) = splitAtChar sep cs ++ splitAtChar sep ds := by
  induction cs with
  | nil => simp [splitAtChar]
  | cons c cs ih =>
    by_cases hc : c = sep
    · subst hc
      rw [List.cons_append, splitAtChar, if_pos rfl, ih, splitAtChar, if_pos rfl, List.cons_append]
    · obtain ⟨part, parts, hparts, hcons⟩ := splitAtChar_cons_of_ne hc cs
      rw [hparts] at ih
      rw [List.cons_append, splitAtChar, if_neg hc, ih, hcons]
      rfl

theorem splitAtChar_of_notMem {cs : List Char} (h : sep ∉ cs) : splitAtChar sep cs = [cs] := by
  induction cs with
  | nil => rfl
  | cons c cs ih =>
    rw [List.mem_cons, not_or] at h
    rw [splitAtChar, if_neg (Ne.symm h.1), ih h.2]

/-- A part of a text without a separator in it, between two separators or ends of the text. -/
def IsPiece (sep : Char) (cs piece : List Char) : Prop :=
  sep ∉ piece ∧ ∃ before after, cs = before ++ (piece ++ after) ∧
    (∀ x ∈ before.getLast?, x = sep) ∧ ∀ x ∈ after.head?, x = sep

theorem eq_nil_of_getLast?_eq_sep {before cs : List Char} (hsep : sep ∉ cs)
    (hbefore : ∀ x ∈ before.getLast?, x = sep) (hsub : before ⊆ cs) : before = [] := by
  by_contra hne
  have hlast := List.getLast?_eq_some_getLast hne
  exact hsep (hbefore _ hlast ▸ hsub (List.getLast_mem hne))

theorem isPiece_iff_of_notMem {cs piece : List Char} (hsep : sep ∉ cs) :
    IsPiece sep cs piece ↔ piece = cs := by
  constructor
  · rintro ⟨-, before, after, rfl, hbefore, hafter⟩
    obtain rfl := eq_nil_of_getLast?_eq_sep hsep hbefore (by simp)
    cases after with
    | nil => simp
    | cons x after => exact absurd (hafter x rfl) fun hx => hsep (by simp [hx])
  · rintro rfl
    exact ⟨hsep, [], [], by simp, by simp, by simp⟩

/-- A piece of a text is its first one or a piece of what stands behind the first separator. -/
theorem isPiece_append_iff {first rest piece : List Char} (hfirst : sep ∉ first) :
    IsPiece sep (first ++ sep :: rest) piece ↔ piece = first ∨ IsPiece sep rest piece := by
  constructor
  · rintro ⟨hpiece, before, after, hcut, hbefore, hafter⟩
    rcases List.append_eq_append_iff.mp hcut with ⟨between, hbetween, hrest⟩ | ⟨first', rfl, hrest⟩
    · cases between with
      | nil =>
        -- The piece begins with the separator, so nothing stands before it and it is empty.
        rw [List.append_nil] at hbetween
        subst hbetween
        obtain rfl := eq_nil_of_getLast?_eq_sep hfirst hbefore (List.Subset.refl _)
        cases piece with
        | nil => exact .inl rfl
        | cons x piece => exact absurd (List.cons.inj hrest).1 fun hx => hpiece (by simp [hx])
      | cons x between =>
        obtain ⟨rfl, rfl⟩ := List.cons.inj hrest
        refine .inr ⟨hpiece, between, after, rfl, ?_, hafter⟩
        intro y hy
        apply hbefore
        rw [hbetween, List.getLast?_append_of_ne_nil _ (by simp),
          List.getLast?_cons_of_ne_nil (by rintro rfl; cases hy)]
        exact hy
    · obtain rfl := eq_nil_of_getLast?_eq_sep hfirst hbefore (by simp)
      left
      cases after with
      | nil =>
        rw [List.append_nil] at hrest
        exact absurd hpiece (by simp [hrest])
      | cons x after =>
        have hx := hafter x rfl
        have hclass {cs : List Char} (h : sep ∉ cs) : ∀ y ∈ cs, (y != sep) = true := by
          intro y hy
          exact bne_iff_ne.mpr fun he => h (he ▸ hy)
        exact (Text.run_inj (hclass hpiece) (hclass hfirst) (by simp [hx]) (by simp) hrest).1
  · rintro (rfl | ⟨hpiece, before, after, rfl, hbefore, hafter⟩)
    · exact ⟨hfirst, [], sep :: rest, rfl, by simp, by simp⟩
    · refine ⟨hpiece, first ++ sep :: before, after, by simp, ?_, hafter⟩
      intro x hx
      rw [List.getLast?_append_of_ne_nil _ (by simp)] at hx
      by_cases hne : before = []
      · subst hne
        simpa [eq_comm] using hx
      · rw [List.getLast?_cons_of_ne_nil hne] at hx
        exact hbefore x hx

theorem mem_splitAtChar_iff {cs piece : List Char} :
    piece ∈ splitAtChar sep cs ↔ IsPiece sep cs piece := by
  induction hlength : cs.length using Nat.strong_induction_on generalizing cs with
  | _ n ih =>
    by_cases hsep : sep ∈ cs
    · obtain ⟨first, rest, rfl, hfirst⟩ := List.eq_append_cons_of_mem hsep
      have hshorter : rest.length < n := by
        rw [← hlength, List.length_append, List.length_cons]
        omega
      rw [splitAtChar_append, splitAtChar_of_notMem hfirst, List.singleton_append, List.mem_cons,
        isPiece_append_iff hfirst, ih _ hshorter rfl]
    · rw [splitAtChar_of_notMem hsep, List.mem_singleton, isPiece_iff_of_notMem hsep]

end Pieces

/-- The nonempty pieces of a path between its slashes. -/
def pieces (path : String) : List String :=
  ((splitAtChar '/' path.toList).map String.ofList).filter (· != "")

theorem pieces_of_toList_eq {path base other : String}
    (h : path.toList = base.toList ++ '/' :: other.toList) :
    pieces path = pieces base ++ pieces other := by
  rw [pieces, h, splitAtChar_append, List.map_append, List.filter_append]
  rfl

theorem pieces_empty : pieces "" = [] := by decide

section Join

variable {base other : String}

end Join

theorem isAbsolute_withoutOuterSlashes (path : String) :
    isAbsolute (Text.withoutOuterSlashes path) = false := by
  have hstripped := Text.stripped_stripWhile (· == '/') path.toList
  rw [isAbsolute, Text.withoutOuterSlashes, String.toList_ofList, beq_eq_false_iff_ne]
  intro hslash
  simpa using hstripped.head '/' hslash

theorem pieces_slashes_append {slashes : List Char} (h : ∀ x ∈ slashes, x = '/')
    (cs : List Char) : pieces (String.ofList (slashes ++ cs)) = pieces (String.ofList cs) := by
  induction slashes with
  | nil => rfl
  | cons x slashes ih =>
    obtain ⟨rfl, hslashes⟩ := List.forall_mem_cons.mp h
    have hcut : (String.ofList ('/' :: slashes ++ cs)).toList =
        "".toList ++ '/' :: (String.ofList (slashes ++ cs)).toList := by simp
    rw [pieces_of_toList_eq hcut, pieces_empty, List.nil_append, ih hslashes]

/-- Slashes around a path do not change its pieces. -/
theorem pieces_withoutOuterSlashes (path : String) :
    pieces (Text.withoutOuterSlashes path) = pieces path := by
  obtain ⟨before, after, hbefore, hafter, hpath⟩ :=
    Text.exists_eq_around_stripWhile (· == '/') path.toList
  have hfront : pieces path =
      pieces (String.ofList (Text.stripWhile (· == '/') path.toList ++ after)) := by
    rw [← pieces_slashes_append (fun x hx => beq_iff_eq.mp (hbefore x hx)), ← hpath,
      String.ofList_toList]
  rw [hfront, Text.withoutOuterSlashes, Text.trimSlashes]
  generalize Text.stripWhile (· == '/') path.toList = inner
  cases after with
  | nil => rw [List.append_nil]
  | cons x after =>
    obtain ⟨hx, hrest⟩ := List.forall_mem_cons.mp hafter
    obtain rfl := beq_iff_eq.mp hx
    have hslashes := pieces_slashes_append (fun x hx => beq_iff_eq.mp (hrest x hx)) []
    rw [List.append_nil, String.ofList_nil, pieces_empty] at hslashes
    have hcut : (String.ofList (inner ++ '/' :: after)).toList =
        (String.ofList inner).toList ++ '/' :: (String.ofList after).toList := by simp
    rw [pieces_of_toList_eq hcut, hslashes, List.append_nil]

end ServiceChains.Path
