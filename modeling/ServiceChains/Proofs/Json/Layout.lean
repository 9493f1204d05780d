import ServiceChains.Proofs.Json.Scalar

/-!
# Values can be read back

A value that has a text for every string and decimal numbers only is read back from its layout. The
proof follows the reader: blanks are skipped, each kind of value is recognised by its first
character, and the items of an array or the fields of an object are read one after the other. The
reader takes fewer nested steps than the layout has characters.
-/
namespace ServiceChains.Json

open Text

section Reading

-- Each lemma up to the values as a whole takes one step of a reader.
attribute [local simp] readValue readItems readFields

theorem skipBlanks_cons {c : Char} (hc : isJsonBlank c = false) (cs : List Char) :
    skipBlanks (c :: cs) = c :: cs := by
  simp [skipBlanks, hc]

theorem skipBlanks_newLine (depth : Nat) (cs : List Char) :
    skipBlanks (newLine depth ++ cs) = skipBlanks cs := by
  unfold skipBlanks newLine
  apply List.dropWhile_append_of_pos
  intro c hc
  rcases List.mem_cons.mp hc with rfl | hc
  · rfl
  · rw [List.eq_of_mem_replicate hc]
    rfl

theorem skipBlanks_skipBlanks (cs : List Char) : skipBlanks (skipBlanks cs) = skipBlanks cs := by
  induction cs with
  | nil => rfl
  | cons c cs ih =>
    by_cases hc : isJsonBlank c = true
    · simpa [skipBlanks, hc] using ih
    · rw [skipBlanks_cons (by simpa using hc), skipBlanks_cons (by simpa using hc)]

theorem readValue_skipBlanks (fuel : Nat) (cs : List Char) :
    readValue fuel (skipBlanks cs) = readValue fuel cs := by
  cases fuel with
  | zero => rw [readValue, readValue]
  | succ fuel => rw [readValue, readValue, skipBlanks_skipBlanks]

theorem readItems_skipBlanks (fuel : Nat) (cs : List Char) :
    readItems fuel (skipBlanks cs) = readItems fuel cs := by
  cases fuel with
  | zero => rw [readItems, readItems]
  | succ fuel => rw [readItems, readItems, readValue_skipBlanks]

theorem readFields_skipBlanks (fuel : Nat) (cs : List Char) :
    readFields fuel (skipBlanks cs) = readFields fuel cs := by
  cases fuel with
  | zero => rw [readFields, readFields]
  | succ fuel => rw [readFields, readFields, skipBlanks_skipBlanks]

theorem readItems_newLine (fuel depth : Nat) (cs : List Char) :
    readItems fuel (newLine depth ++ cs) = readItems fuel cs := by
  rw [← readItems_skipBlanks, skipBlanks_newLine, readItems_skipBlanks]

theorem readFields_newLine (fuel depth : Nat) (cs : List Char) :
    readFields fuel (newLine depth ++ cs) = readFields fuel cs := by
  rw [← readFields_skipBlanks, skipBlanks_newLine, readFields_skipBlanks]

theorem readItems_bracket (fuel : Nat) (cs : List Char) : readItems fuel (']' :: cs) = none := by
  have hvalue : ∀ fuel, readValue fuel (']' :: cs) = none := by
    intro fuel
    cases fuel with
    | zero => rw [readValue]
    | succ fuel =>
      rw [readValue, skipBlanks_cons (by decide)]
      simp [readNumber, readWhole, readDigits1]
  cases fuel with
  | zero => rw [readItems]
  | succ fuel => rw [readItems, hvalue]

theorem readFields_brace (fuel : Nat) (cs : List Char) : readFields fuel ('}' :: cs) = none := by
  cases fuel with
  | zero => rw [readFields]
  | succ fuel =>
    rw [readFields, skipBlanks_cons (by decide)]
    rfl

theorem readValue_of_readItems {fuel : Nat} {cs rest : List Char} {items : List Json}
    (h : readItems fuel cs = some (items, rest)) :
    readValue (fuel + 1) ('[' :: cs) = some (.array items, rest) := by
  rw [← readItems_skipBlanks] at h
  rw [readValue, skipBlanks_cons (by decide)]
  simp only
  split
  -- An array that closes at once has no items to read.
  · next heq =>
    rw [heq, readItems_bracket] at h
    cases h
  · rw [h]
    rfl

theorem readValue_of_readFields {fuel : Nat} {cs rest : List Char}
    {fields : List (Option String × Json)} (h : readFields fuel cs = some (fields, rest)) :
    readValue (fuel + 1) ('{' :: cs) = some (.object fields, rest) := by
  rw [← readFields_skipBlanks] at h
  rw [readValue, skipBlanks_cons (by decide)]
  simp only
  split
  · next heq =>
    rw [heq, readFields_brace] at h
    cases h
  · rw [h]
    rfl

/-- The value is read back from its layout, at whatever depth it was written and whatever follows it.
-/
def ReadsBack (j : Json) : Prop :=
  ∀ depth fuel rest, (layout depth j).length ≤ fuel → EndsNumber rest →
    readValue fuel (layout depth j ++ rest) = some (j, rest)

theorem readsBack_null : null.ReadsBack := by
  intro depth fuel rest hfuel _
  obtain ⟨fuel, rfl⟩ : ∃ k, fuel = k + 1 := ⟨fuel - 1, by simp [layout] at hfuel; omega⟩
  simp [layout, skipBlanks, isJsonBlank]

theorem readsBack_bool (b : Bool) : (bool b).ReadsBack := by
  intro depth fuel rest hfuel _
  cases b with
  | false =>
    obtain ⟨fuel, rfl⟩ : ∃ k, fuel = k + 1 := ⟨fuel - 1, by simp [layout] at hfuel; omega⟩
    simp [layout, skipBlanks, isJsonBlank]
  | true =>
    obtain ⟨fuel, rfl⟩ : ∃ k, fuel = k + 1 := ⟨fuel - 1, by simp [layout] at hfuel; omega⟩
    simp [layout, skipBlanks, isJsonBlank]

theorem skipBlanks_digits (n : Nat) (rest : List Char) :
    skipBlanks (digits n ++ rest) = digits n ++ rest := by
  obtain ⟨d, ds, hds, hd⟩ := exists_digits_eq_cons n
  rw [hds, List.cons_append]
  apply skipBlanks_cons
  simp only [isJsonBlank, Bool.or_eq_false_iff, beq_eq_false_iff_ne]
  refine ⟨⟨⟨?_, ?_⟩, ?_⟩, ?_⟩ <;>
  · rintro rfl
    exact absurd hd (by decide)

theorem readsBack_number (n : Nat) : (number (decimal n)).ReadsBack := by
  intro depth fuel rest hfuel hrest
  have hlen := List.length_pos_of_ne_nil (digits_ne_nil n)
  simp only [layout, decimal, String.toList_ofList] at hfuel ⊢
  obtain ⟨fuel, rfl⟩ : ∃ k, fuel = k + 1 := ⟨fuel - 1, by omega⟩
  rw [readValue, skipBlanks_digits]
  split
  case h_7 =>
    rw [readNumber_digits n hrest]
    rfl
  all_goals
    next heq => exact absurd heq (digits_append_ne n rest (by decide) _)

theorem readsBack_string (s : String) : (string (some s)).ReadsBack := by
  intro depth fuel rest hfuel _
  have hlayout : layout depth (string (some s)) = '"' :: (s.toList.flatMap escape ++ ['"']) := by
    simp [layout, quoteText, quote]
  rw [hlayout] at hfuel ⊢
  rw [List.length_cons] at hfuel
  obtain ⟨fuel, rfl⟩ : ∃ k, fuel = k + 1 := ⟨fuel - 1, by omega⟩
  rw [List.cons_append, List.append_assoc, readValue, skipBlanks_cons (by decide)]
  simp [readString_quote]

theorem endsNumber_newLine (depth : Nat) (cs : List Char) : EndsNumber (newLine depth ++ cs) :=
  endsNumber_cons _ (by decide)

theorem endsNumber_layoutItems (depth outer : Nat) (items : List Json) (cs : List Char) :
    EndsNumber (layoutItems depth items ++ (newLine outer ++ cs)) := by
  cases items with
  | nil =>
    rw [layoutItems]
    exact endsNumber_newLine outer cs
  | cons item items =>
    rw [layoutItems]
    exact endsNumber_cons _ (by decide)

theorem endsNumber_layoutFields (depth outer : Nat) (fields : List (Option String × Json))
    (cs : List Char) : EndsNumber (layoutFields depth fields ++ (newLine outer ++ cs)) := by
  cases fields with
  | nil =>
    rw [layoutFields]
    exact endsNumber_newLine outer cs
  | cons f fields =>
    rw [layoutFields]
    exact endsNumber_cons _ (by decide)

/-- The items of an array are read up to its closing bracket. -/
theorem readItems_layout {item : Json} {items : List Json} (hitem : item.ReadsBack)
    (hitems : ∀ j ∈ items, j.ReadsBack) (depth outer fuel : Nat) (rest : List Char)
    (hfuel : (layout depth item).length + (layoutItems depth items).length < fuel) :
    readItems fuel
        (layout depth item ++ (layoutItems depth items ++ (newLine outer ++ ']' :: rest))) =
      some (item :: items, rest) := by
  induction items generalizing item fuel with
  | nil =>
    obtain ⟨fuel, rfl⟩ : ∃ k, fuel = k + 1 := ⟨fuel - 1, by omega⟩
    have hread := hitem depth fuel _ (by omega)
      (endsNumber_layoutItems depth outer [] (']' :: rest))
    rw [readItems, hread]
    simp only [layoutItems, List.nil_append, skipBlanks_newLine]
    rw [skipBlanks_cons (by decide)]
    rfl
  | cons next items ih =>
    obtain ⟨fuel, rfl⟩ : ∃ k, fuel = k + 1 := ⟨fuel - 1, by omega⟩
    have hread := hitem depth fuel _ (by omega)
      (endsNumber_layoutItems depth outer (next :: items) (']' :: rest))
    simp only [layoutItems, List.length_cons, List.length_append] at hfuel
    have hrest := ih (hitems next (by simp)) (fun j hj => hitems j (by simp [hj])) fuel (by omega)
    rw [readItems, hread]
    simp only [layoutItems, List.cons_append, List.append_assoc]
    rw [skipBlanks_cons (by decide)]
    simp only [readItems_newLine, hrest, Option.map_some]

theorem readsBack_array {items : List Json} (h : ∀ j ∈ items, j.ReadsBack) :
    (array items).ReadsBack := by
  intro depth fuel rest hfuel _
  cases items with
  | nil =>
    obtain ⟨fuel, rfl⟩ : ∃ k, fuel = k + 1 := ⟨fuel - 1, by simp [layout] at hfuel; omega⟩
    simp [layout, skipBlanks, isJsonBlank]
  | cons item items =>
    simp only [layout, newLine, List.length_cons, List.length_append] at hfuel
    obtain ⟨fuel, rfl⟩ : ∃ k, fuel = k + 1 := ⟨fuel - 1, by omega⟩
    simp only [layout, List.cons_append, List.append_assoc, List.nil_append]
    apply readValue_of_readItems
    rw [readItems_newLine]
    exact readItems_layout (h item (by simp)) (fun j hj => h j (by simp [hj])) _ _ _ _ (by omega)

/-- A field is the last one before a brace, and is put before the others before a comma. -/
theorem readFields_field {name : String} {value : Json} {depth fuel : Nat} {rest : List Char}
    (hvalue : value.ReadsBack) (hfuel : (layout depth value).length ≤ fuel)
    (hrest : EndsNumber rest) (after : List Char) :
    (skipBlanks rest = '}' :: after →
      readFields (fuel + 1) (quoteText (some name) ++ (": ".toList ++ (layout depth value ++ rest))) =
        some ([(some name, value)], after)) ∧
    (skipBlanks rest = ',' :: after → ∀ fields last, readFields fuel after = some (fields, last) →
      readFields (fuel + 1) (quoteText (some name) ++ (": ".toList ++ (layout depth value ++ rest))) =
        some ((some name, value) :: fields, last)) := by
  have hcolon : skipBlanks (": ".toList ++ (layout depth value ++ rest)) =
      ':' :: ' ' :: (layout depth value ++ rest) := skipBlanks_cons (by decide) _
  have hspace : readValue fuel (' ' :: (layout depth value ++ rest)) = some (value, rest) := by
    rw [← readValue_skipBlanks, skipBlanks, List.dropWhile_cons_of_pos (by decide)]
    exact (readValue_skipBlanks _ _).trans (hvalue depth fuel rest hfuel hrest)
  rw [readFields]
  simp only [quoteText, Option.map_some, Option.getD_some, quote, List.cons_append,
    List.append_assoc, List.nil_append]
  rw [skipBlanks_cons (by decide)]
  simp only [readString_quote, hcolon, hspace]
  constructor
  · intro hbrace
    simp only [hbrace]
  · intro hcomma fields last hfields
    simp only [hcomma, hfields, Option.map_some]

/-- The fields of an object are read up to its closing brace. -/
theorem readFields_layout (name : String) {value : Json} {fields : List (Option String × Json)}
    (hvalue : value.ReadsBack) (hnames : ∀ f ∈ fields, f.1.isSome = true)
    (hfields : ∀ f ∈ fields, f.2.ReadsBack) (depth outer fuel : Nat) (rest : List Char)
    (hfuel : (layout depth value).length + (layoutFields depth fields).length < fuel) :
    readFields fuel (quoteText (some name) ++ (": ".toList ++ (layout depth value ++
        (layoutFields depth fields ++ (newLine outer ++ '}' :: rest))))) =
      some ((some name, value) :: fields, rest) := by
  induction fields generalizing name value fuel with
  | nil =>
    obtain ⟨fuel, rfl⟩ : ∃ k, fuel = k + 1 := ⟨fuel - 1, by omega⟩
    apply (readFields_field hvalue (by omega) (endsNumber_layoutFields depth outer [] _) rest).1
    rw [layoutFields, List.nil_append, skipBlanks_newLine]
    exact skipBlanks_cons (by decide) rest
  | cons next fields ih =>
    obtain ⟨fuel, rfl⟩ : ∃ k, fuel = k + 1 := ⟨fuel - 1, by omega⟩
    obtain ⟨nextName?, nextValue⟩ := next
    obtain ⟨nextName, rfl⟩ : ∃ name, nextName? = some name :=
      Option.isSome_iff_exists.mp (hnames _ List.mem_cons_self)
    have hnext : nextValue.ReadsBack := hfields _ List.mem_cons_self
    have hends := endsNumber_layoutFields depth outer ((some nextName, nextValue) :: fields)
      ('}' :: rest)
    simp only [layoutFields, List.length_cons, List.length_append] at hfuel
    have hrest := ih nextName hnext (fun f hf => hnames f (by simp [hf]))
      (fun f hf => hfields f (by simp [hf])) fuel (by omega)
    simp only [layoutFields, List.cons_append, List.append_assoc] at hends ⊢
    apply (readFields_field hvalue (by omega) hends _).2 (skipBlanks_cons (by decide) _)
    rw [readFields_newLine, hrest]

theorem readsBack_object {fields : List (Option String × Json)}
    (hnames : ∀ f ∈ fields, f.1.isSome = true) (h : ∀ f ∈ fields, f.2.ReadsBack) :
    (object fields).ReadsBack := by
  intro depth fuel rest hfuel _
  cases fields with
  | nil =>
    obtain ⟨fuel, rfl⟩ : ∃ k, fuel = k + 1 := ⟨fuel - 1, by simp [layout] at hfuel; omega⟩
    simp [layout, skipBlanks, isJsonBlank]
  | cons f fields =>
    obtain ⟨name?, value⟩ := f
    obtain ⟨name, rfl⟩ : ∃ name, name? = some name :=
      Option.isSome_iff_exists.mp (hnames _ List.mem_cons_self)
    have hvalue : value.ReadsBack := h _ List.mem_cons_self
    simp only [layout, newLine, List.length_cons, List.length_append] at hfuel
    obtain ⟨fuel, rfl⟩ : ∃ k, fuel = k + 1 := ⟨fuel - 1, by omega⟩
    simp only [layout, List.cons_append, List.append_assoc, List.nil_append]
    apply readValue_of_readFields
    rw [readFields_newLine]
    exact readFields_layout name hvalue (fun f hf => hnames f (by simp [hf]))
      (fun f hf => h f (by simp [hf])) _ _ _ _ (by omega)

end Reading

/-- Every string of the value has a text, and every number is a decimal one. -/
inductive Plain : Json → Prop
  | null : Plain .null
  | bool (b : Bool) : Plain (.bool b)
  | number (n : Nat) : Plain (.number (decimal n))
  | string (s : String) : Plain (.string (some s))
  | array (items : List Json) : (∀ j ∈ items, Plain j) → Plain (.array items)
  | object (fields : List (Option String × Json)) :
      (∀ f ∈ fields, f.1.isSome = true) → (∀ f ∈ fields, Plain f.2) → Plain (.object fields)

theorem Plain.readsBack {j : Json} (h : j.Plain) : j.ReadsBack := by
  induction h with
  | null => exact readsBack_null
  | bool b => exact readsBack_bool b
  | number n => exact readsBack_number n
  | string s => exact readsBack_string s
  | array items _ ih => exact readsBack_array ih
  | object fields hnames _ ih => exact readsBack_object hnames ih

theorem plain_text (s : String) : (text s).Plain :=
  .string s

theorem plain_word (n : UInt64) : (word n).Plain :=
  .number n.toNat

theorem plain_array_map {α : Type} {write : α → Json} {xs : List α}
    (h : ∀ x ∈ xs, (write x).Plain) : (array (xs.map write)).Plain := by
  apply Plain.array
  intro j hj
  obtain ⟨x, hx, rfl⟩ := List.mem_map.mp hj
  exact h x hx

/-- A field with a name and a plain value. -/
def PlainField (f : Option String × Json) : Prop :=
  f.1.isSome = true ∧ f.2.Plain

theorem plain_object {fields : List (Option String × Json)} (h : ∀ f ∈ fields, PlainField f) :
    (object fields).Plain :=
  .object fields (fun f hf => (h f hf).1) (fun f hf => (h f hf).2)

theorem plainField_field (name : String) {value : Json} (h : value.Plain) :
    PlainField (field name value) :=
  ⟨rfl, h⟩

theorem plainField_of_mem_field? {name : String} {value : Option Json}
    (h : ∀ j ∈ value, j.Plain) : ∀ f ∈ field? name value, PlainField f := by
  intro f hf
  cases value with
  | none => cases hf
  | some j =>
    rw [List.mem_singleton.mp hf]
    exact plainField_field name (h j rfl)

/-- A plain value is read back from its text. -/
theorem parse?_render {j : Json} (h : j.Plain) : parse? j.render = some j := by
  have hread := h.readsBack 0 (2 * (layout 0 j).length + 2) [] (by omega) endsNumber_nil
  rw [List.append_nil] at hread
  simp [parse?, render, hread, skipBlanks]

end ServiceChains.Json
