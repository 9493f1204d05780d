/-!
# Tables and tallies

A table keeps values under names, in the order in which the names were first put in. A tally counts
how often each item of a list occurs, in the order in which the items first occur; counts are 64-bit
words. Both change the value of a key in place and put a new key behind the others.
-/
namespace ServiceChains

/-- Changes the value of a key; a key that is not there yet gets the value `first` behind the others.
-/
def upsert {κ β : Type} [DecidableEq κ] (key : κ) (first : β) (change : β → β) :
    List (κ × β) → List (κ × β)
  | [] => [(key, first)]
  | (other, value) :: rest =>
    if other = key then (other, change value) :: rest
    else (other, value) :: upsert key first change rest

/-- Changing a value adds no other key. -/
theorem mem_of_mem_upsert {κ β : Type} [DecidableEq κ] {key : κ} {first : β} {change : β → β}
    {entries : List (κ × β)} {e : κ × β} (h : e ∈ upsert key first change entries) :
    e.1 = key ∨ ∃ d ∈ entries, d.1 = e.1 := by
  induction entries with
  | nil => simp_all [upsert]
  | cons d rest ih =>
    obtain ⟨other, value⟩ := d
    simp only [upsert] at h
    split at h
    · rcases List.mem_cons.mp h with rfl | h
      · exact .inr ⟨(other, value), by simp, rfl⟩
      · exact .inr ⟨e, by simp [h], rfl⟩
    · rcases List.mem_cons.mp h with rfl | h
      · exact .inr ⟨(other, value), by simp, rfl⟩
      · rcases ih h with h | ⟨d, hd, he⟩
        · exact .inl h
        · exact .inr ⟨d, by simp [hd], he⟩

/-- Taking out entries by their keys leaves the values of the other keys. -/
theorem lookup_filter_key {κ β : Type} [BEq κ] [LawfulBEq κ] (keep : κ → Bool)
    (entries : List (κ × β)) (key : κ) :
    (entries.filter fun e => keep e.1).lookup key =
      if keep key then entries.lookup key else none := by
  induction entries with
  | nil => simp
  | cons e entries ih =>
    obtain ⟨other, value⟩ := e
    rw [List.filter_cons]
    by_cases hkey : key = other
    · subst hkey
      by_cases hkeep : keep key = true
      · simp [hkeep]
      · simpa [hkeep] using ih
    · have hne : (key == other) = false := beq_eq_false_iff_ne.mpr hkey
      rw [List.lookup_cons, hne, ← ih]
      split
      · rw [List.lookup_cons, hne]
      · rfl

/-- Values under names, in order of first insertion. -/
abbrev Table (α : Type) := List (String × α)

namespace Table

variable {α : Type}

/-- The value under a name. -/
def get? (t : Table α) (name : String) : Option α :=
  t.lookup name

/-- Changes the value under a name, starting from `initial` if there is none. -/
def update (name : String) (initial : α) (change : α → α) (t : Table α) : Table α :=
  upsert name (change initial) change t

/-- Puts a value under a name, in place of an earlier one. -/
def put (t : Table α) (name : String) (value : α) : Table α :=
  update name value (fun _ => value) t

theorem get?_cons (key other : String) (value : α) (rest : Table α) :
    get? ((key, value) :: rest) other = if other = key then some value else get? rest other := by
  by_cases h : other = key
  · simp [get?, h]
  · simp [get?, List.lookup_cons, beq_eq_false_iff_ne.mpr h, h]

theorem get?_map_self (names : List String) (value : String → α) (name : String) :
    get? (names.map fun n => (n, value n)) name =
      if name ∈ names then some (value name) else none := by
  induction names with
  | nil => rfl
  | cons n names ih =>
    rw [List.map_cons, get?_cons, ih]
    by_cases h : name = n
    · simp [h]
    · simp [h]

theorem get?_map {β : Type} (t : Table α) (f : α → β) (name : String) :
    get? (t.map fun (n, value) => (n, f value)) name = (t.get? name).map f := by
  induction t with
  | nil => rfl
  | cons e t ih =>
    rw [List.map_cons, get?_cons, get?_cons, ih]
    split <;> rfl

end Table

/-- Adds `k` to the count of an item. -/
def bump {α : Type} [DecidableEq α] (x : α) (k : UInt64) (counts : List (α × UInt64)) :
    List (α × UInt64) :=
  upsert x k (· + k) counts

/-- Adds `k` to the count of an item, unless the sum is too large for a word. -/
def bump? {α : Type} [DecidableEq α] (x : α) (k : UInt64) (counts : List (α × UInt64)) :
    Option (List (α × UInt64)) :=
  if ((counts.lookup x).getD 0).toNat + k.toNat < UInt64.size then some (bump x k counts) else none

/-- The distinct items of a list in order of first occurrence, each with its number of occurrences.
-/
def tally {α : Type} [DecidableEq α] (xs : List α) : List (α × UInt64) :=
  xs.foldl (fun counts x => bump x 1 counts) []

/-- What is counted occurs in the list. -/
theorem mem_of_mem_tally {α : Type} [DecidableEq α] {xs : List α} {e : α × UInt64}
    (h : e ∈ tally xs) : e.1 ∈ xs := by
  have go : ∀ (xs : List α) (counts : List (α × UInt64)) (e : α × UInt64),
      e ∈ xs.foldl (fun counts x => bump x 1 counts) counts →
        e.1 ∈ xs ∨ ∃ d ∈ counts, d.1 = e.1 := by
    intro xs
    induction xs with
    | nil => intro counts e h; exact .inr ⟨e, h, rfl⟩
    | cons x xs ih =>
      intro counts e h
      rcases ih _ _ h with h | ⟨d, hd, he⟩
      · exact .inl (by simp [h])
      · rcases mem_of_mem_upsert hd with hx | ⟨d', hd', he'⟩
        · exact .inl (by simp [← he, hx])
        · exact .inr ⟨d', hd', he'.trans he⟩
  rcases go xs [] e h with h | ⟨d, hd, _⟩
  · exact h
  · simp at hd

/-- Adds a name unless it is there already. -/
def insertNew {α : Type} [DecidableEq α] (x : α) (xs : List α) : List α :=
  if x ∈ xs then xs else xs ++ [x]

/-- Strings in increasing order of their code points. -/
def sortStrings (xs : List String) : List String :=
  xs.mergeSort fun a b => decide (a ≤ b)

@[simp] theorem sortStrings_singleton (x : String) : sortStrings [x] = [x] := by
  simp [sortStrings]

theorem sortStrings_perm (xs : List String) : (sortStrings xs).Perm xs :=
  List.mergeSort_perm xs _

theorem nodup_sortStrings {xs : List String} (h : xs.Nodup) : (sortStrings xs).Nodup :=
  (sortStrings_perm xs).nodup_iff.mpr h

end ServiceChains
