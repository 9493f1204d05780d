import ServiceChains.Toml.Value

/-!
# Building TOML tables

A key is given once. Dotted keys create tables on their way, which further dotted keys may extend,
but they cannot enter a table that has a header or braces. A header creates a table, once; tables on
its way are created when they are missing, and the last element of an array of tables stands for the
array.
-/
namespace ServiceChains.Toml

/-- A key, perhaps dotted: the tables on the way and the last part. -/
structure Key where
  parents : List String
  name : String

/-- A key with its value. -/
structure Assignment where
  key : Key
  value : Toml

/-- A header with the assignments below it. -/
structure Section where
  key : Key
  /-- does the header add an element to an array? -/
  isElement : Bool
  assignments : List Assignment

/-- A document: the assignments before the first header, then the headers. -/
structure Document where
  assignments : List Assignment
  sections : List Section

namespace Entries

/-- Puts an entry in place of the one with the same key, or at the end. -/
def put (name : String) (value : Toml) : Entries → Entries
  | [] => [(name, value)]
  | (other, old) :: rest =>
    if other = name then (name, value) :: rest else (other, old) :: put name value rest

/-- Adds an entry whose key is new. -/
def add (name : String) (value : Toml) (entries : Entries) : Option Entries :=
  match entries.lookup name with
  | none => some (entries ++ [(name, value)])
  | some _ => none

/-- Changes the last table of a list. -/
def changeLast (change : Entries → Option Entries) (tables : List Entries) :
    Option (List Entries) :=
  match tables.getLast? with
  | none => none
  | some last => (change last).map fun last => tables.dropLast ++ [last]

/-- Gives a value to a dotted key. A table that is entered has to come from dotted keys itself,
unless the way goes on. -/
def assign (name : String) (value : Toml) : List String → Entries → Option Entries
  | [], entries => add name value entries
  | parent :: rest, entries =>
    match entries.lookup parent with
    | none =>
      (assign name value rest []).map fun sub => entries ++ [(parent, .table .dotted sub)]
    | some (.table .dotted sub) =>
      (assign name value rest sub).map fun sub => put parent (.table .dotted sub) entries
    | some (.table .implied sub) =>
      if rest.isEmpty then none
      else (assign name value rest sub).map fun sub => put parent (.table .implied sub) entries
    | some (.tables elements) =>
      if rest.isEmpty then none
      else
        (changeLast (assign name value rest) elements).map fun elements =>
          put parent (.tables elements) entries
    | some _ => none

/-- Carries out assignments one after the other. -/
def assignAll (assignments : List Assignment) (entries : Entries) : Option Entries :=
  assignments.foldlM (fun entries a => assign a.key.name a.value a.key.parents entries) entries

/-- Changes the table that the parents of a header lead to. -/
def within (change : Entries → Option Entries) : List String → Entries → Option Entries
  | [], entries => change entries
  | parent :: rest, entries =>
    match entries.lookup parent with
    | none => (within change rest []).map fun sub => entries ++ [(parent, .table .implied sub)]
    | some (.table .inline _) => none
    | some (.table origin sub) =>
      (within change rest sub).map fun sub => put parent (.table origin sub) entries
    | some (.tables elements) =>
      (changeLast (within change rest) elements).map fun elements =>
        put parent (.tables elements) entries
    | some _ => none

/-- Adds the table of a header to the table that holds it. -/
def addSection (s : Section) (entries : Entries) : Option Entries :=
  match s.isElement, entries.lookup s.key.name with
  | true, none =>
    (assignAll s.assignments []).map fun table => put s.key.name (.tables [table]) entries
  | true, some (.tables elements) =>
    (assignAll s.assignments []).map fun table =>
      put s.key.name (.tables (elements ++ [table])) entries
  | false, none =>
    (assignAll s.assignments []).map fun table => put s.key.name (.table .header table) entries
  | false, some (.table .implied sub) =>
    (assignAll s.assignments sub).map fun table => put s.key.name (.table .header table) entries
  | _, _ => none

end Entries

/-- The entries of a document, if its keys and headers fit together. -/
def Document.entries? (d : Document) : Option Entries := do
  let top ← Entries.assignAll d.assignments []
  d.sections.foldlM
    (fun entries s => Entries.within (Entries.addSection s) s.key.parents entries) top

end ServiceChains.Toml
