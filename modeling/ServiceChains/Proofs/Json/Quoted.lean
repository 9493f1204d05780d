import Mathlib.Data.List.Basic
import ServiceChains.Json.Reader

/-!
# Quoted text is self-delimiting

A quoted text is read back as the characters it was made from, whatever follows it. So a text that
begins with a quoted text determines it and the rest, whatever it contains. The same holds of a list
of quoted texts up to its closing bracket. The price is length: each time a text is quoted, its
quotes and backslashes double.
-/
namespace ServiceChains.Json

theorem hex4?_hexChar : ∀ n < 32, hex4? '0' '0' (hexChar (n / 16)) (hexChar (n % 16)) = some n := by
  decide

/-- An escaped character is read as that character. -/
theorem stringUnits_escape (units : List Nat) (c : Char) (rest : List Char) :
    stringUnits units (escape c ++ rest) = stringUnits (c.toNat :: units) rest := by
  unfold escape
  split_ifs with hquote hback hb hf hn hr ht hcontrol
  · subst hquote; simp [stringUnits, shortEscape?]
  · subst hback; simp [stringUnits, shortEscape?]
  · subst hb; simp [stringUnits, shortEscape?]
  · subst hf; simp [stringUnits, shortEscape?]
  · subst hn; simp [stringUnits, shortEscape?]
  · subst hr; simp [stringUnits, shortEscape?]
  · subst ht; simp [stringUnits, shortEscape?]
  · simp [stringUnits, hex4?_hexChar _ hcontrol]
  · simp [stringUnits, hback, hcontrol]

/-- A quoted text is read up to its closing quote. -/
theorem stringUnits_quote (units : List Nat) (cs rest : List Char) :
    stringUnits units (cs.flatMap escape ++ '"' :: rest) =
      some (units.reverse ++ cs.map Char.toNat, rest) := by
  induction cs generalizing units with
  | nil => simp [stringUnits]
  | cons c cs ih =>
    rw [List.flatMap_cons, List.append_assoc, stringUnits_escape, ih]
    simp

/-- A text that begins with an encoded value determines the value and the rest. -/
def SelfDelimiting {α : Type} (encode : α → List Char) : Prop :=
  ∀ a b r s, encode a ++ r = encode b ++ s → a = b ∧ r = s

theorem SelfDelimiting.comp {α β : Type} {encode : β → List Char} (h : SelfDelimiting encode)
    {f : α → β} (hf : Function.Injective f) : SelfDelimiting fun a => encode (f a) := by
  intro a b r s heq
  obtain ⟨hab, hrs⟩ := h (f a) (f b) r s heq
  exact ⟨hf hab, hrs⟩

theorem selfDelimiting_quote : SelfDelimiting quote := by
  intro cs ds r s h
  simp only [quote, List.cons_append, List.append_assoc, List.nil_append, List.cons.injEq,
    true_and] at h
  -- The reader stops at the closing quote on both sides, so it tells the text from the rest.
  have hread := congrArg (stringUnits []) h
  rw [stringUnits_quote, stringUnits_quote] at hread
  simp only [List.reverse_nil, List.nil_append, Option.some.injEq, Prod.mk.injEq] at hread
  exact ⟨List.map_injective_iff.mpr (fun _ _ => Char.toNat_inj.mp) hread.1, hread.2⟩

theorem selfDelimiting_quote_toList : SelfDelimiting fun s : String => quote s.toList :=
  selfDelimiting_quote.comp fun _ _ => String.toList_injective

@[simp] theorem toList_quoted (s : String) : (quoted s).toList = quote s.toList := by
  simp [quoted]

/-- Quoted texts behind commas, up to a closing bracket. -/
def furtherItems (xs : List String) : List Char :=
  (xs.flatMap fun x => ',' :: quote x.toList) ++ [']']

theorem selfDelimiting_furtherItems : SelfDelimiting furtherItems := by
  intro xs
  induction xs with
  | nil =>
    intro ys r s h
    cases ys with
    | nil => exact ⟨rfl, by simpa [furtherItems] using h⟩
    | cons y ys => simp [furtherItems] at h
  | cons x xs ih =>
    intro ys r s h
    cases ys with
    | nil => simp [furtherItems] at h
    | cons y ys =>
      have hrest : quote x.toList ++ (furtherItems xs ++ r) =
          quote y.toList ++ (furtherItems ys ++ s) := by
        simpa [furtherItems] using h
      obtain ⟨hxy, htail⟩ := selfDelimiting_quote_toList _ _ _ _ hrest
      obtain ⟨hxs, hrs⟩ := ih ys r s htail
      exact ⟨by rw [hxy, hxs], hrs⟩

/-- Quoted texts with commas between them, up to a closing bracket. -/
def quotedItems (xs : List String) : List Char :=
  (",".intercalate (xs.map quoted)).toList ++ [']']

theorem quotedItems_cons (x : String) (xs : List String) :
    quotedItems (x :: xs) = quote x.toList ++ furtherItems xs := by
  induction xs generalizing x with
  | nil => simp [quotedItems, furtherItems]
  | cons y xs ih =>
    have hy := ih y
    simp only [quotedItems, furtherItems, List.map_cons, String.intercalate_cons_cons,
      String.toList_append, toList_quoted, List.flatMap_cons, List.append_assoc,
      List.cons_append] at hy ⊢
    rw [hy]
    rfl

theorem selfDelimiting_quotedItems : SelfDelimiting quotedItems := by
  intro xs ys r s h
  cases xs with
  | nil =>
    cases ys with
    | nil => exact ⟨rfl, by simpa [quotedItems] using h⟩
    | cons y ys => simp [quotedItems, quote] at h
  | cons x xs =>
    cases ys with
    | nil => simp [quotedItems, quote] at h
    | cons y ys =>
      rw [quotedItems_cons, quotedItems_cons, List.append_assoc, List.append_assoc] at h
      obtain ⟨hxy, htail⟩ := selfDelimiting_quote_toList _ _ _ _ h
      obtain ⟨hxs, hrs⟩ := selfDelimiting_furtherItems _ _ _ _ htail
      exact ⟨by rw [hxy, hxs], hrs⟩

theorem quote_sublist_furtherItems {x : String} {xs : List String} (h : x ∈ xs) :
    (quote x.toList).Sublist (furtherItems xs) := by
  have hitem : (quote x.toList).Sublist (',' :: quote x.toList) := List.sublist_cons_self _ _
  have hitems : (',' :: quote x.toList).Sublist (xs.flatMap fun x => ',' :: quote x.toList) := by
    rw [List.flatMap_def]
    exact List.sublist_flatten_of_mem (List.mem_map_of_mem h)
  exact (hitem.trans hitems).trans (List.sublist_append_left _ _)

theorem quote_sublist_quotedItems {x : String} {xs : List String} (h : x ∈ xs) :
    (quote x.toList).Sublist (quotedItems xs) := by
  cases xs with
  | nil => cases h
  | cons y ys =>
    rw [quotedItems_cons]
    rcases List.mem_cons.mp h with rfl | hmem
    · exact List.sublist_append_left _ _
    · exact (quote_sublist_furtherItems hmem).trans (List.sublist_append_right _ _)

/-- A quote or a backslash, for which two of them stand in a quoted text. -/
def isDoubled (c : Char) : Bool :=
  c = '"' ∨ c = '\\'

/-- Quoting doubles quotes and backslashes. -/
theorem two_mul_countP_le_quote (cs : List Char) :
    2 * cs.countP isDoubled ≤ (quote cs).countP isDoubled := by
  have hchars : 2 * cs.countP isDoubled ≤ (cs.flatMap escape).countP isDoubled := by
    induction cs with
    | nil => simp
    | cons c cs ih =>
      have hc : 2 * [c].countP isDoubled ≤ (escape c).countP isDoubled := by
        by_cases hquote : c = '"'
        · subst hquote
          decide
        · by_cases hback : c = '\\'
          · subst hback
            decide
          · simp [isDoubled, hquote, hback]
      rw [List.flatMap_cons, List.countP_append, ← List.singleton_append, List.countP_append]
      omega
  unfold quote
  rw [List.cons_append, List.countP_cons, List.countP_append]
  omega

end ServiceChains.Json
