import ServiceChains.Proofs.Source.Client
import ServiceChains.Proofs.Text.Leftmost

/-!
# Names of units

A unit is named after the package that its text declares first. The routes of a file take the text
without its comments for that, the calls of the file the text as it stands. So both name the unit alike
exactly if the first package declaration has the same name in either text. That is the case if no
comment reaches into it: a declaration inside a comment, or with a comment in its middle, is found in
one of the two texts only.
-/
namespace ServiceChains

/-- The part behind the last dot and what stands in front of it can be told apart. -/
theorem append_dot_inj {unit unit' name name' : String} (hname : '.' ∉ name.toList)
    (hname' : '.' ∉ name'.toList) (h : unit ++ "." ++ name = unit' ++ "." ++ name') :
    unit = unit' ∧ name = name' := by
  have hsame : name = name' := by
    rw [← afterLastDot_append unit name hname, h, afterLastDot_append unit' name' hname']
  subst hsame
  have hlists := congrArg String.toList h
  simp only [String.toList_append, List.append_cancel_right_eq] at hlists
  exact ⟨String.toList_inj.mp hlists, rfl⟩

namespace Source

open Text Cursor

section Characters

/-- The code points of the blanks. -/
def blankCodes : List Nat :=
  List.range' 9 5 ++ [0x20, 0x85, 0xA0, 0x1680] ++ List.range' 0x2000 11 ++
    [0x2028, 0x2029, 0x202F, 0x205F, 0x3000]

theorem mem_blankCodes {x : Char} (h : isBlank x = true) : x.toNat ∈ blankCodes := by
  simp only [isBlank, Bool.or_eq_true, Bool.and_eq_true, decide_eq_true_eq, beq_iff_eq] at h
  simp only [blankCodes, List.mem_append, List.mem_range'_1, List.mem_cons, List.not_mem_nil]
  omega

/-- No blank is part of a word. -/
theorem isWord_of_isBlank {x : Char} (h : isBlank x = true) : isWord x = false := by
  have hcodes : ∀ n ∈ blankCodes, isWord (Char.ofNat n) = false := by decide +kernel
  rw [← Char.ofNat_toNat x]
  exact hcodes _ (mem_blankCodes h)

/-- The characters in the name of a package. -/
def isPackageChar (x : Char) : Bool :=
  isWord x || x == '.'

theorem isPackageChar_of_isBlank {x : Char} (h : isBlank x = true) : isPackageChar x = false := by
  have hdot : x ≠ '.' := by
    rintro rfl
    exact absurd h (by decide)
  simp [isPackageChar, isWord_of_isBlank h, hdot]

end Characters

section Packages

/-- A package declaration as it is written: the keyword and, with blanks in between, the name and a
semicolon. -/
def SpellsPackage (name taken : List Char) : Prop :=
  ∃ gap trail, taken = "package".toList ++ (gap ++ (name ++ (trail ++ [';']))) ∧
    (gap ≠ [] ∧ ∀ x ∈ gap, isBlank x = true) ∧
    (name ≠ [] ∧ ∀ x ∈ name, isPackageChar x = true) ∧ ∀ x ∈ trail, isBlank x = true

theorem SpellsPackage.ne_nil {name taken : List Char} (h : SpellsPackage name taken) :
    taken ≠ [] := by
  obtain ⟨gap, trail, rfl, -⟩ := h
  simp

theorem takes_packageDeclaration : Takes packageDeclaration SpellsPackage := by
  intro c name d
  simp only [packageDeclaration, Option.bind_eq_bind, Option.bind_eq_some_iff, text_eq_some_iff,
    char_eq_some_iff]
  constructor
  · rintro ⟨c₁, hword, ⟨gap, c₂⟩, hgap, ⟨_, c₃⟩, hname, c₄, hend, hpure⟩
    cases hpure
    have hpass := hword.trans <| (passes_of_run1 hgap).trans <| (passes_of_run1 hname).trans <|
      (passes_skipWhile isBlank c₃).trans hend
    obtain ⟨rfl, hgapne, rfl⟩ := run1_eq_some_iff.mp hgap
    obtain ⟨rfl, hnamene, rfl⟩ := run1_eq_some_iff.mp hname
    exact ⟨_, ⟨_, _, rfl, ⟨hgapne, fun x hx => List.mem_takeWhile_imp hx⟩,
      ⟨hnamene, fun x hx => List.mem_takeWhile_imp hx⟩, fun x hx => List.mem_takeWhile_imp hx⟩, hpass⟩
  · rintro ⟨_, ⟨gap, trail, rfl, ⟨hgapne, hgap⟩, ⟨hnamene, hname⟩, htrail⟩, hpass⟩
    simp only [Passes.append_iff] at hpass
    obtain ⟨c₁, hword, c₂, hgaps, c₃, hnames, c₄, htrails, hend⟩ := hpass
    have hsemicolon : c₄.rest.head? = some ';' := by
      rw [hend.rest_eq]
      rfl
    -- Each run stops where the next part begins.
    have hbehindGap : ∀ x ∈ c₂.rest.head?, isBlank x = false := by
      intro x hx
      rw [hnames.rest_eq, List.head?_append_of_ne_nil _ hnamene] at hx
      by_contra hblank
      have hchar := hname x (List.mem_of_mem_head? hx)
      rw [isPackageChar_of_isBlank (by simpa using hblank)] at hchar
      cases hchar
    have hbehindName : ∀ x ∈ c₃.rest.head?, isPackageChar x = false := by
      intro x hx
      rw [htrails.rest_eq, List.head?_append, hsemicolon] at hx
      cases hfirst : trail.head? with
      | none =>
        rw [hfirst] at hx
        cases hx
        decide
      | some y =>
        rw [hfirst] at hx
        cases hx
        exact isPackageChar_of_isBlank (htrail x (List.mem_of_mem_head? hfirst))
    have hbehindTrail : ∀ x ∈ c₄.rest.head?, isBlank x = false := by
      intro x hx
      rw [hsemicolon] at hx
      cases hx
      decide
    refine ⟨c₁, hword, (gap, c₂), run1_of_passes hgaps hgapne hgap hbehindGap, (name, c₃),
      run1_of_passes hnames hnamene hname hbehindName, d, ?_, rfl⟩
    rwa [skipWhile_of_passes htrails htrail hbehindTrail]

/-- No comment reaches into the package declaration that is found first, with the comments or without
them: at its place both texts are the same. -/
def LeavesPackage (source : List Char) : Prop :=
  ∀ f, f ∈ (scan packageDeclaration source).head? ∨
      f ∈ (scan packageDeclaration (blank false source)).head? →
    slice? f.start f.stop source = slice? f.start f.stop (blank false source)

theorem LeavesPackage.first?_eq {source : List Char} (h : LeavesPackage source) :
    first? packageDeclaration source = first? packageDeclaration (blank false source) :=
  takes_packageDeclaration.first?_eq (fun _ _ => SpellsPackage.ne_nil) h

end Packages

section Units

variable {service fileName : String} {source : List Char}

/-- A unit has different names in different packages, and without one. -/
theorem unitName_eq_iff {text text' : List Char} :
    unitName fileName text = unitName fileName text' ↔
      first? packageDeclaration text = first? packageDeclaration text' := by
  have hlonger (name : List Char) (unit : String) : String.ofList name ++ "." ++ unit ≠ unit := by
    intro h
    have hlength := congrArg (fun s => s.toList.length) h
    simp at hlength
    omega
  have hpackage (name name' : List Char) (unit : String) :
      String.ofList name ++ "." ++ unit = String.ofList name' ++ "." ++ unit ↔ name = name' := by
    constructor
    · intro h
      simpa using congrArg String.toList h
    · rintro rfl
      rfl
  unfold unitName
  cases first? packageDeclaration text with
  | none =>
    cases first? packageDeclaration text' with
    | none => simp only
    | some name' => exact iff_of_false (hlonger name' _).symm (by simp)
  | some name =>
    cases first? packageDeclaration text' with
    | none => exact iff_of_false (hlonger name _) (by simp)
    | some name' => simp only [hpackage, Option.some.injEq]

theorem unit_of_mem_declarations {d : Declaration} (h : d ∈ declarations fileName source) :
    d.unit = unitName fileName (blank false source) := by
  simp only [declarations, List.mem_filterMap] at h
  obtain ⟨m, -, hm⟩ := h
  split_ifs at hm
  split at hm
  · cases hm
    rfl
  · cases hm

theorem exists_name_of_mem_callSites {site : CallSite}
    (h : site ∈ callSites service fileName source) :
    ∃ name, '.' ∉ name.toList ∧ site.method = unitName fileName source ++ "." ++ name := by
  rw [callSites_eq] at h
  obtain ⟨call, -, hsite⟩ := List.mem_filterMap.mp h
  unfold siteOf? at hsite
  split at hsite
  · cases hsite
    exact ⟨_, dot_notMem_caller (isCaller_enclosingMethod source call.start), rfl⟩
  · cases hsite

end Units

/-- The calls of a file name its unit as its routes do exactly if the text as it stands and the text
without comments declare the same package first, or none. They do if no comment reaches into that
declaration. -/
theorem unit_names_agree_iff {service fileName : String} {source : List Char} {d : Declaration}
    {site : CallSite} (hd : d ∈ declarations fileName source)
    (hsite : site ∈ callSites service fileName source) :
    ((∃ name, '.' ∉ name.toList ∧ site.method = d.unit ++ "." ++ name) ↔
      first? packageDeclaration source = first? packageDeclaration (blank false source)) ∧
    (LeavesPackage source → ∃ name, '.' ∉ name.toList ∧ site.method = d.unit ++ "." ++ name) := by
  obtain ⟨caller, hcaller, hmethod⟩ := exists_name_of_mem_callSites hsite
  have hiff : (∃ name, '.' ∉ name.toList ∧ site.method = d.unit ++ "." ++ name) ↔
      first? packageDeclaration source = first? packageDeclaration (blank false source) := by
    rw [← unitName_eq_iff, unit_of_mem_declarations hd, hmethod]
    constructor
    · rintro ⟨name, hname, hsame⟩
      exact (append_dot_inj hcaller hname hsame).1
    · intro hsame
      exact ⟨caller, hcaller, by rw [hsame]⟩
  exact ⟨hiff, fun hleaves => hiff.mpr hleaves.first?_eq⟩

section Sources

/-- A class with a route whose handler makes a call. -/
def routedClass : String :=
  "class A \x7b @GetMapping(\"/x\") public void go() \x7b" ++
    "restTemplate.put(getServiceUrl(\"s\") + \"/y\", 1);\x7d\x7d"

/-- Its package is declared between two comments, of which the second mentions another one. -/
def commentedPackage : List Char :=
  ("/*ü*/package a.b;//package c;\n" ++ routedClass).toList

theorem unit_names_agree_iff_commented :
    declarations "A.java" commentedPackage = [⟨"a.b.A", "go", "x", .get⟩] ∧
      callSites "web" "A.java" commentedPackage = [⟨"web", "a.b.A.go", "s", "/y", .put⟩] ∧
      LeavesPackage commentedPackage ∧
      ∃ name, '.' ∉ name.toList ∧ "a.b.A.go" = "a.b.A" ++ "." ++ name := by
  have hroutes : declarations "A.java" commentedPackage = [⟨"a.b.A", "go", "x", .get⟩] := by
    decide +kernel
  have hcalls : callSites "web" "A.java" commentedPackage =
      [⟨"web", "a.b.A.go", "s", "/y", .put⟩] := by decide +kernel
  have hraw : (scan packageDeclaration commentedPackage).head? =
      some ⟨"a.b".toList, 6, 18⟩ := by cbv
  have hblanked : (scan packageDeclaration (blank false commentedPackage)).head? =
      some ⟨"a.b".toList, 6, 18⟩ := by cbv
  have hleaves : LeavesPackage commentedPackage := by
    intro f hf
    rw [hraw, hblanked, or_self] at hf
    cases hf
    decide +kernel
  have hagree := unit_names_agree_iff (hroutes ▸ List.mem_singleton_self _)
    (hcalls ▸ List.mem_singleton_self _)
  exact ⟨hroutes, hcalls, hleaves, hagree.2 hleaves⟩

/-- The same class behind a comment that mentions another package. -/
def mentionedPackage : List Char :=
  ("/*package a;*/package b;" ++ routedClass).toList

/-- The routes are in the package that is declared, the call is in the one that is mentioned. -/
theorem unit_names_differ :
    declarations "A.java" mentionedPackage = [⟨"b.A", "go", "x", .get⟩] ∧
      callSites "web" "A.java" mentionedPackage = [⟨"web", "a.A.go", "s", "/y", .put⟩] ∧
      ¬ ∃ name, '.' ∉ name.toList ∧ "a.A.go" = "b.A" ++ "." ++ name := by
  refine ⟨by decide +kernel, by decide +kernel, ?_⟩
  rintro ⟨name, -, hsame⟩
  have hhead := congrArg (fun s => s.toList.head?) hsame
  simp at hhead

end Sources

end Source

end ServiceChains
