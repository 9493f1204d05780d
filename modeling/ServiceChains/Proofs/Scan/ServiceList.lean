import ServiceChains.Proofs.Path
import ServiceChains.Proofs.Tally
import ServiceChains.Scan.ServiceList

/-!
# Lists of services

A list of services is read line by line, and a name counts where it first occurs. So the list of two
texts with a line feed between them is that of the first and what the second adds to it, wherever the
cut is: no line is divided by it, and a line without a name adds nothing. A carriage return in front
of a line feed is one of the blanks at the end of its line.
-/
namespace ServiceChains.ServiceList

open Text

/-- The line names a service: between the blanks at its ends stands the name, perhaps with `./` in
front of it and with slashes behind it. The name does not end in a slash itself. -/
structure Names (line : List Char) (name : String) : Prop where
  getLast?_ne : name.toList.getLast? ≠ some '/'
  exists_core : ∃ core slashes,
    (Stripped isBlank core ∧ ∃ before after, (∀ x ∈ before, isBlank x = true) ∧
      (∀ x ∈ after, isBlank x = true) ∧ line = before ++ (core ++ after)) ∧
    (∀ x ∈ slashes, x = '/') ∧
    (core = ['.', '/'] ++ (name.toList ++ slashes) ∨
      ¬ ['.', '/'] <+: core ∧ core = name.toList ++ slashes)

section Lines

variable {line rest : List Char} {name : String}

theorem nameOfLine_of_trim_eq (h : trim line = ['.', '/'] ++ rest) :
    nameOfLine line = String.ofList (dropEndWhile (· == '/') rest) := by
  simp only [nameOfLine, h, List.cons_append, List.nil_append]

theorem nameOfLine_of_not_dotted (h : ¬ ['.', '/'] <+: trim line) :
    nameOfLine line = String.ofList (dropEndWhile (· == '/') (trim line)) := by
  simp only [nameOfLine]
  split
  · next rest hrest => exact absurd ⟨rest, hrest.symm⟩ h
  · rfl

theorem ofList_dropEndWhile_eq_iff :
    String.ofList (dropEndWhile (· == '/') rest) = name ↔ name.toList.getLast? ≠ some '/' ∧
      ∃ slashes, (∀ x ∈ slashes, x = '/') ∧ rest = name.toList ++ slashes := by
  rw [← String.toList_inj, String.toList_ofList, dropEndWhile_eq_iff]
  simp only [beq_iff_eq, beq_eq_false_iff_ne, Option.mem_def, ne_eq]
  apply and_congr_left
  intro _
  constructor
  · intro h hlast
    exact h '/' hlast rfl
  · rintro h x hx rfl
    exact h hx

theorem nameOfLine_eq_iff : nameOfLine line = name ↔ Names line name := by
  by_cases hdot : ['.', '/'] <+: trim line
  · obtain ⟨rest, hrest⟩ := hdot
    rw [nameOfLine_of_trim_eq hrest.symm, ofList_dropEndWhile_eq_iff]
    constructor
    · rintro ⟨hlast, slashes, hslashes, rfl⟩
      exact ⟨hlast, trim line, slashes, stripWhile_eq_iff.mp rfl, hslashes, .inl hrest.symm⟩
    · rintro ⟨hlast, core, slashes, hcore, hslashes, hname⟩
      obtain rfl := stripWhile_eq_iff.mpr hcore
      rcases hname with hname | ⟨hnot, -⟩
      · exact ⟨hlast, slashes, hslashes, List.append_cancel_left (hrest.trans hname)⟩
      · exact absurd ⟨rest, hrest⟩ hnot
  · rw [nameOfLine_of_not_dotted hdot, ofList_dropEndWhile_eq_iff]
    constructor
    · rintro ⟨hlast, slashes, hslashes, hname⟩
      exact ⟨hlast, trim line, slashes, stripWhile_eq_iff.mp rfl, hslashes, .inr ⟨hdot, hname⟩⟩
    · rintro ⟨hlast, core, slashes, hcore, hslashes, hname⟩
      obtain rfl := stripWhile_eq_iff.mpr hcore
      rcases hname with hname | ⟨-, hname⟩
      · exact absurd ⟨_, hname.symm⟩ hdot
      · exact ⟨hlast, slashes, hslashes, hname⟩

end Lines

/-- The names of the lines of a text, without those of lines that name nothing. -/
def lineNames (text : String) : List String :=
  ((Path.splitAtChar '\n' text.toList).map nameOfLine).filter fun name => ¬ name.isEmpty

/-- The services that a text lists are the names of its lines, each where it first occurs. -/
theorem parse_eq (text : String) : parse text = (lineNames text).eraseDups := by
  have hfold := foldl_insertNew_eq (fun name : String => name.isEmpty = true)
    ((Path.splitAtChar '\n' text.toList).map nameOfLine)
  rw [List.foldl_map] at hfold
  exact hfold

theorem lineNames_append (a b : String) :
    lineNames (a ++ "\n" ++ b) = lineNames a ++ lineNames b := by
  have hlines : (a ++ "\n" ++ b).toList = a.toList ++ '\n' :: b.toList := by simp
  rw [lineNames, hlines, Path.splitAtChar_append, List.map_append, List.filter_append]
  rfl

theorem mem_parse_iff {text name : String} :
    name ∈ parse text ↔
      name ≠ "" ∧ ∃ line, Path.IsPiece '\n' text.toList line ∧ Names line name := by
  rw [parse_eq, List.mem_eraseDups, lineNames, List.mem_filter, List.mem_map, and_comm]
  simp only [Path.mem_splitAtChar_iff, nameOfLine_eq_iff]
  simp

/-- A line feed between two texts divides their lists: the second adds the names that the first does
not have, in their order. The names of a list are different from each other, not empty, and do not
end in a slash. They are the names of the lines of the text. -/
theorem parse_lists_lines :
    (∀ a b : String, parse (a ++ "\n" ++ b) =
      parse a ++ (parse b).filter fun name => name ∉ parse a) ∧
    ∀ text : String, (parse text).Nodup ∧
      (∀ name ∈ parse text, name ≠ "" ∧ name.toList.getLast? ≠ some '/') ∧
      ∀ name, name ∈ parse text ↔
        name ≠ "" ∧ ∃ line, Path.IsPiece '\n' text.toList line ∧ Names line name := by
  constructor
  · intro a b
    rw [parse_eq, lineNames_append, List.eraseDups_append, parse_eq a, parse_eq b,
      filter_eraseDups]
    congr 2
    apply List.filter_congr
    intro name _
    simp
  · intro text
    refine ⟨?_, ?_, fun name => mem_parse_iff⟩
    · rw [parse_eq]
      exact nodup_eraseDups _
    · intro name hname
      obtain ⟨hne, line, -, hnames⟩ := mem_parse_iff.mp hname
      exact ⟨hne, hnames.getLast?_ne⟩

/-- Two texts with a service in common, with blank lines and lines of slashes around the cut. -/
theorem parse_lists_lines_repeated :
    parse " ./ts-a-service/\r\n" = ["ts-a-service"] ∧
    parse ".//\nts-a-service \n\u3000ts-b-service//" = ["ts-a-service", "ts-b-service"] ∧
    parse (" ./ts-a-service/\r\n" ++ "\n" ++ ".//\nts-a-service \n\u3000ts-b-service//") =
      ["ts-a-service"] ++ ["ts-b-service"] ∧
    "ts-b-service".toList.getLast? ≠ some '/' := by
  have hfirst : parse " ./ts-a-service/\r\n" = ["ts-a-service"] := by decide +kernel
  have hsecond : parse ".//\nts-a-service \n\u3000ts-b-service//" =
      ["ts-a-service", "ts-b-service"] := by decide +kernel
  obtain ⟨hcut, hlist⟩ := parse_lists_lines
  refine ⟨hfirst, hsecond, ?_, ((hlist _).2.1 "ts-b-service" (by rw [hsecond]; simp)).2⟩
  rw [hcut, hfirst, hsecond]
  decide

end ServiceChains.ServiceList
