import ServiceChains.Proofs.Toml.Scalar
import ServiceChains.Toml.Reader

/-!
# Written tables can be read back

A document of headers with lines below them, each with a key and a value, is read back as the tables
that it was written from. The reader takes one line after the other off the text, and what it makes
of the lines behind does not depend on the lines before. Keys and headers differ from each other, so
every entry is new when it is added: a key has the value that its line gives it, or none if it has no
line.
-/
namespace ServiceChains.Toml

open Text

section Keys

theorem skipBlanks_cons {c : Char} (hc : isTomlBlank c = false) (cs : List Char) :
    skipBlanks (c :: cs) = c :: cs := by
  simp [skipBlanks, hc]

/-- A key that needs no quotes. -/
def IsBare (key : String) : Prop :=
  key.toList ≠ [] ∧ key.toList.all isBareKey = true

instance (key : String) : Decidable (IsBare key) :=
  inferInstanceAs (Decidable (_ ∧ _))

theorem isTomlBlank_of_isBareKey {c : Char} (hc : isBareKey c = true) : isTomlBlank c = false := by
  have hspace : c ≠ ' ' := ne_of_class hc (by decide)
  have htab : c ≠ '\t' := ne_of_class hc (by decide)
  simp [isTomlBlank, hspace, htab]

variable {key : String}

theorem IsBare.exists_eq_cons (hkey : IsBare key) :
    ∃ c cs, key.toList = c :: cs ∧ isBareKey c = true := by
  obtain ⟨c, cs, hcs⟩ := List.exists_cons_of_ne_nil hkey.1
  have hall := hkey.2
  rw [hcs, List.all_cons, Bool.and_eq_true] at hall
  exact ⟨c, cs, hcs, hall.1⟩

theorem IsBare.skipBlanks_append (hkey : IsBare key) (rest : List Char) :
    skipBlanks (key.toList ++ rest) = key.toList ++ rest := by
  obtain ⟨c, cs, hcs, hc⟩ := hkey.exists_eq_cons
  rw [hcs, List.cons_append, skipBlanks_cons (isTomlBlank_of_isBareKey hc)]

/-- A key without quotes is read up to the first character that cannot stand in it. -/
theorem keyPart_bare (hkey : IsBare key) {d : Char} (hd : isBareKey d = false) (rest : List Char) :
    keyPart (key.toList ++ d :: rest) = some (key, d :: rest) := by
  obtain ⟨c, cs, hcs, hc⟩ := hkey.exists_eq_cons
  have hall := List.all_eq_true.mp hkey.2
  have htake : (key.toList ++ d :: rest).takeWhile isBareKey = key.toList := by
    rw [List.takeWhile_append_of_pos hall, List.takeWhile_cons_of_neg (by simp [hd]),
      List.append_nil]
  have hdrop : (key.toList ++ d :: rest).dropWhile isBareKey = d :: rest := by
    rw [List.dropWhile_append_of_pos hall, List.dropWhile_cons_of_neg (by simp [hd])]
  have hquote : c ≠ '"' := ne_of_class hc (by decide)
  have hliteral : c ≠ '\'' := ne_of_class hc (by decide)
  have hname : String.ofList (c :: cs) = key := by rw [← hcs, String.ofList_toList]
  rw [hcs, List.cons_append] at htake hdrop ⊢
  simp [keyPart, hquote, hliteral, htake, hdrop, hname]

/-- A key of one part is read up to what stands behind the blanks that follow it. -/
theorem readKey_bare (hkey : IsBare key) {d : Char} (hd : isBareKey d = false) {rest : List Char}
    (hdot : ∀ tail, skipBlanks (d :: rest) ≠ '.' :: tail) :
    readKey (key.toList ++ d :: rest) = some (⟨[], key⟩, skipBlanks (d :: rest)) := by
  have hparts (fuel : Nat) : keyParts (fuel + 1) (key.toList ++ d :: rest) =
      some ([key], skipBlanks (d :: rest)) := by
    rw [keyParts, hkey.skipBlanks_append, keyPart_bare hkey hd]
    simp
  have hlength : (key.toList ++ d :: rest).length = key.toList.length + rest.length + 1 := by
    rw [List.length_append, List.length_cons, Nat.add_assoc]
  rw [readKey, hlength, hparts]
  rfl

end Keys

section Lines

variable {key : String}

/-- The line of a key with the text of its value. -/
def lineText (key : String) (text : List Char) : List Char :=
  key.toList ++ ' ' :: '=' :: ' ' :: (text ++ ['\n'])

theorem readValue_of_spells {text : List Char} {value : Toml} (h : Spells text value)
    (fuel depth : Nat) (rest : List Char) :
    readValue (fuel + 1) depth (text ++ '\n' :: rest) = some (value, '\n' :: rest) := by
  have hread := h.read rest
  obtain ⟨c, cs, rfl, -, hbracket, hbrace⟩ := h.head
  rw [List.cons_append] at hread ⊢
  simp [readValue, hbracket, hbrace, hread]

/-- The line of a key and a value is read as its assignment. -/
theorem readAssignment_lineText (hkey : IsBare key) {text : List Char} {value : Toml}
    (h : Spells text value) (rest : List Char) :
    readAssignment (lineText key text ++ rest) = some (⟨⟨[], key⟩, value⟩, rest) := by
  have hline : lineText key text ++ rest =
      key.toList ++ ' ' :: '=' :: ' ' :: (text ++ '\n' :: rest) := by simp [lineText]
  have hequals : skipBlanks (' ' :: '=' :: ' ' :: (text ++ '\n' :: rest)) =
      '=' :: ' ' :: (text ++ '\n' :: rest) := rfl
  have hblank : skipBlanks (' ' :: (text ++ '\n' :: rest)) = text ++ '\n' :: rest := by
    obtain ⟨c, cs, rfl, hc, -⟩ := h.head
    exact skipBlanks_cons hc _
  have hread := readKey_bare hkey (d := ' ') (by decide) (by rw [hequals]; simp)
  rw [readAssignment, hline, hread, hequals]
  simp only [Option.bind_eq_bind, Option.bind_some, hblank, readValue_of_spells h]
  rfl

/-- The header of a table. -/
def headerText (name : String) : List Char :=
  '[' :: (name.toList ++ [']', '\n'])

theorem readHeader_headerText (hkey : IsBare key) (rest : List Char) :
    readHeader (headerText key ++ rest) = some (false, ⟨[], key⟩, rest) := by
  have hheader : headerText key ++ rest = '[' :: (key.toList ++ ']' :: '\n' :: rest) := by
    simp [headerText]
  have hbracket : skipBlanks (']' :: '\n' :: rest) = ']' :: '\n' :: rest := rfl
  have hread := readKey_bare hkey (d := ']') (by decide) (by rw [hbracket]; simp)
  obtain ⟨c, cs, hcs, hc⟩ := hkey.exists_eq_cons
  have hsecond : c ≠ '[' := ne_of_class hc (by decide)
  have hfeed : lineEnd? ('\n' :: rest) = some rest := rfl
  rw [hheader]
  rw [hcs, List.cons_append] at hread ⊢
  simp [readHeader, hsecond, hread, hbracket, hfeed]

end Lines

section Documents

/-- The text is read as the document, one line after the other. -/
def ReadsAs (text : List Char) (d : Document) : Prop :=
  ∀ fuel, text.length < fuel → readLines fuel text = some d

variable {rest : List Char} {assignments : List Assignment} {sections : List Section}

theorem readsAs_of_succ {text : List Char} {d : Document}
    (h : ∀ fuel, text.length ≤ fuel → readLines (fuel + 1) text = some d) : ReadsAs text d := by
  intro fuel hfuel
  cases fuel with
  | zero => cases hfuel
  | succ fuel => exact h fuel (Nat.le_of_lt_succ hfuel)

theorem readsAs_nil : ReadsAs [] ⟨[], []⟩ :=
  readsAs_of_succ fun _ _ => rfl

/-- An empty line says nothing. -/
theorem ReadsAs.feed {d : Document} (h : ReadsAs rest d) : ReadsAs ('\n' :: rest) d :=
  readsAs_of_succ fun fuel hfuel => h fuel hfuel

/-- A line adds an assignment in front. -/
theorem ReadsAs.line {key : String} (hkey : IsBare key) {text : List Char} {value : Toml}
    (hvalue : Spells text value) (h : ReadsAs rest ⟨assignments, sections⟩) :
    ReadsAs (lineText key text ++ rest) ⟨⟨⟨[], key⟩, value⟩ :: assignments, sections⟩ := by
  refine readsAs_of_succ fun fuel hfuel => ?_
  have hrest := h fuel (by simp [lineText] at hfuel; omega)
  have hread := readAssignment_lineText hkey hvalue rest
  obtain ⟨c, cs, hcs, hc⟩ := hkey.exists_eq_cons
  obtain ⟨tail, htail⟩ : ∃ tail, lineText key text ++ rest = c :: tail :=
    ⟨_, by rw [lineText, hcs]; rfl⟩
  -- The first character of the key tells the line from a header, a comment and an empty line.
  have hbracket : c ≠ '[' := ne_of_class hc (by decide)
  have hcomment : c ≠ '#' := ne_of_class hc (by decide)
  have hfeed : c ≠ '\n' := ne_of_class hc (by decide)
  have hreturn : c ≠ '\r' := ne_of_class hc (by decide)
  rw [htail] at hread ⊢
  rw [readLines, skipBlanks_cons (isTomlBlank_of_isBareKey hc)]
  simp [hcomment, hfeed, hreturn, hread, hrest]

/-- A header takes the assignments behind it for its own. -/
theorem ReadsAs.header {name : String} (hname : IsBare name)
    (h : ReadsAs rest ⟨assignments, sections⟩) :
    ReadsAs (headerText name ++ rest) ⟨[], ⟨⟨[], name⟩, false, assignments⟩ :: sections⟩ := by
  refine readsAs_of_succ fun fuel hfuel => ?_
  have hrest := h fuel (by simp [headerText] at hfuel; omega)
  have hread := readHeader_headerText hname rest
  obtain ⟨tail, htail⟩ : ∃ tail, headerText name ++ rest = '[' :: tail := ⟨_, rfl⟩
  rw [htail] at hread ⊢
  rw [readLines, skipBlanks_cons (by decide)]
  simp [hread, hrest]

end Documents

section Groups

/-- A value with the text that it is written as. -/
structure Cell where
  text : List Char
  value : Toml
  spells : Spells text value

/-- A key that perhaps has a value. -/
structure Field where
  key : String
  cell? : Option Cell
  bare : IsBare key

/-- The line of a key, if it has a value. -/
def Field.text (f : Field) : List Char :=
  match f.cell? with
  | none => []
  | some cell => lineText f.key cell.text

/-- The entry of a key, if it has a value. -/
def Field.entry? (f : Field) : Option (String × Toml) :=
  f.cell?.map fun cell => (f.key, cell.value)

/-- The value of a key, if it has one. -/
def Field.value? (f : Field) : Option Toml :=
  f.cell?.map Cell.value

/-- A table with a header. -/
structure Group where
  name : String
  fields : List Field
  bare : IsBare name
  distinct : (fields.map Field.key).Nodup

/-- The header of a table and the lines of its keys. -/
def Group.text (g : Group) : List Char :=
  headerText g.name ++ g.fields.flatMap Field.text

/-- The entries of a table. -/
def Group.entries (g : Group) : Entries :=
  g.fields.filterMap Field.entry?

/-- The assignment of an entry. -/
def simpleAssignment (entry : String × Toml) : Assignment :=
  ⟨⟨[], entry.1⟩, entry.2⟩

/-- The section of a table. -/
def Group.toSection (g : Group) : Section :=
  ⟨⟨[], g.name⟩, false, g.entries.map simpleAssignment⟩

/-- The entry of a table in its document. -/
def Group.entry (g : Group) : String × Toml :=
  (g.name, .table .header g.entries)

variable {rest : List Char} {sections : List Section}

theorem ReadsAs.fields (fs : List Field) (h : ReadsAs rest ⟨[], sections⟩) :
    ReadsAs (fs.flatMap Field.text ++ rest)
      ⟨(fs.filterMap Field.entry?).map simpleAssignment, sections⟩ := by
  induction fs with
  | nil => exact h
  | cons f fs ih =>
    obtain ⟨key, cell?, hkey⟩ := f
    rw [List.flatMap_cons, List.append_assoc]
    cases cell? with
    | none => exact ih
    | some cell => exact ih.line hkey cell.spells

theorem ReadsAs.group (g : Group) (h : ReadsAs rest ⟨[], sections⟩) :
    ReadsAs (g.text ++ rest) ⟨[], g.toSection :: sections⟩ := by
  rw [Group.text, List.append_assoc]
  exact (h.fields g.fields).header g.bare

/-- The text of a document: its tables, with an empty line before each but the first. -/
def documentText : List Group → List Char
  | [] => []
  | g :: gs => g.text ++ gs.flatMap fun g => '\n' :: g.text

theorem readsAs_documentText (gs : List Group) :
    ReadsAs (documentText gs) ⟨[], gs.map Group.toSection⟩ := by
  cases gs with
  | nil => exact readsAs_nil
  | cons g gs =>
    refine ReadsAs.group g ?_
    -- The tables behind the first begin with an empty line each, so these are read on their own.
    induction gs with
    | nil => exact readsAs_nil
    | cons g gs ih =>
      rw [List.flatMap_cons, List.cons_append]
      exact (ih.group g).feed

end Groups

section Entries

variable {name : String} {value : Toml} {entries : Entries}

theorem lookup_eq_none_of_notMem (h : name ∉ entries.map Prod.fst) :
    entries.lookup name = none := by
  rw [List.lookup_eq_none_iff]
  intro entry hentry
  rw [bne_iff_ne]
  rintro rfl
  exact h (List.mem_map_of_mem hentry)

theorem put_eq_append (h : name ∉ entries.map Prod.fst) :
    Entries.put name value entries = entries ++ [(name, value)] := by
  induction entries with
  | nil => rfl
  | cons entry entries ih =>
    obtain ⟨hne, hmem⟩ := not_or.mp (List.mem_cons.not.mp h)
    rw [Entries.put, if_neg (Ne.symm hne), ih hmem, List.cons_append]

theorem notMem_of_nodup_append {new : Entries} {entry : String × Toml}
    (h : ((entries ++ entry :: new).map Prod.fst).Nodup) : entry.1 ∉ entries.map Prod.fst := by
  rw [List.map_append, List.nodup_append] at h
  exact fun hmem => h.2.2 _ hmem _ (by simp) rfl

/-- Assignments of new keys add their entries at the end. -/
theorem assignAll_simpleAssignment {new : Entries} (h : ((entries ++ new).map Prod.fst).Nodup) :
    Entries.assignAll (new.map simpleAssignment) entries = some (entries ++ new) := by
  induction new generalizing entries with
  | nil => simp [Entries.assignAll]
  | cons entry new ih =>
    have hlookup := lookup_eq_none_of_notMem (notMem_of_nodup_append h)
    rw [List.append_cons] at h ⊢
    have hrest := ih h
    simp only [Entries.assignAll] at hrest
    simp [Entries.assignAll, simpleAssignment, Entries.assign, Entries.add, hlookup, hrest]

/-- The keys with a value keep their order. -/
theorem sublist_keys (fs : List Field) :
    ((fs.filterMap Field.entry?).map Prod.fst).Sublist (fs.map Field.key) := by
  induction fs with
  | nil => exact .slnil
  | cons f fs ih =>
    obtain ⟨key, cell?, -⟩ := f
    cases cell? with
    | none => exact ih.cons key
    | some cell => exact ih.cons_cons key

theorem Group.nodup_entries (g : Group) : (g.entries.map Prod.fst).Nodup :=
  g.distinct.sublist (sublist_keys g.fields)

/-- The section of a new name adds its table at the end. -/
theorem addSection_toSection (g : Group) (h : g.name ∉ entries.map Prod.fst) :
    Entries.addSection g.toSection entries = some (entries ++ [g.entry]) := by
  have hassign : Entries.assignAll (g.entries.map simpleAssignment) [] = some g.entries :=
    assignAll_simpleAssignment g.nodup_entries
  simp [Entries.addSection, Group.toSection, lookup_eq_none_of_notMem h, hassign, put_eq_append h,
    Group.entry]

/-- Sections of new names add their tables at the end. -/
theorem foldlM_addSection {gs : List Group}
    (h : ((entries ++ gs.map Group.entry).map Prod.fst).Nodup) :
    (gs.map Group.toSection).foldlM
        (fun entries s => Entries.within (Entries.addSection s) s.key.parents entries) entries =
      some (entries ++ gs.map Group.entry) := by
  induction gs generalizing entries with
  | nil => simp
  | cons g gs ih =>
    have hsection := addSection_toSection g (notMem_of_nodup_append h)
    have hwithin : Entries.within (Entries.addSection g.toSection) g.toSection.key.parents entries =
        some (entries ++ [g.entry]) := hsection
    rw [List.map_cons, List.append_cons] at h
    rw [List.map_cons, List.foldlM_cons, hwithin, Option.bind_eq_bind, Option.bind_some, ih h,
      List.append_assoc, List.map_cons, List.singleton_append]

/-- The text of tables with different names is read as these tables. -/
theorem parse?_of_toList_eq {gs : List Group} (h : (gs.map Group.name).Nodup) {text : String}
    (htext : text.toList = documentText gs) : parse? text = some (gs.map Group.entry) := by
  have hmark : dropByteOrderMark (documentText gs) = documentText gs := by
    cases gs with
    | nil => rfl
    | cons g gs => rfl
  have hread := readsAs_documentText gs _ (Nat.lt_succ_self _)
  have hnames : (([] ++ gs.map Group.entry).map Prod.fst).Nodup := by
    rw [List.nil_append, List.map_map]
    exact h
  have hfold := foldlM_addSection hnames
  simp [parse?, htext, hmark, hread, Document.entries?, Entries.assignAll, hfold]

/-- A key has the value of its field. -/
theorem lookup_filterMap_entry? {fs : List Field} (h : (fs.map Field.key).Nodup) {f : Field}
    (hf : f ∈ fs) : (fs.filterMap Field.entry?).lookup f.key = f.value? := by
  induction fs with
  | nil => cases hf
  | cons first fs ih =>
    obtain ⟨hfirst, hnodup⟩ := List.nodup_cons.mp h
    obtain ⟨key, cell?, hbare⟩ := first
    rcases List.mem_cons.mp hf with rfl | hmem
    · cases cell? with
      | none => exact lookup_eq_none_of_notMem fun hmem => hfirst ((sublist_keys fs).mem hmem)
      | some cell => exact List.lookup_cons_self
    · have hne : f.key ≠ key := ne_of_mem_of_not_mem (List.mem_map_of_mem hmem) hfirst
      cases cell? with
      | none => exact ih hnodup hmem
      | some cell =>
        have hentry : Field.entry? ⟨key, some cell, hbare⟩ = some (key, cell.value) := rfl
        rw [List.filterMap_cons_some hentry, List.lookup_cons, beq_false_of_ne hne]
        exact ih hnodup hmem

end Entries

end ServiceChains.Toml
