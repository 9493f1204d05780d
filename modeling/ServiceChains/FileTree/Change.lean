import ServiceChains.FileTree

/-!
# Changes of file trees

Each change either succeeds or leaves the tree as it is; only creating several directories may stop
half way.
-/
namespace ServiceChains.FileTree

/-- Puts something at a location. -/
def put (t : FileTree) (place : Location) (node : FileNode) : FileTree :=
  { t with entries := t.entries.filter (·.1 != place) ++ [(place, node)] }

theorem node?_put (t : FileTree) (place other : Location) (node : FileNode) (h : place ≠ []) :
    (t.put place node).node? other = if other = place then some node else t.node? other := by
  by_cases hp : other = place
  · subst hp
    have gone : (t.entries.filter (·.1 != other)).lookup other = none := by
      rw [List.lookup_eq_none_iff]
      intro e he
      have apart : e.1 ≠ other := by simpa using (List.mem_filter.mp he).2
      simpa using fun same => apart (by simp [same])
    simp [node?, put, h, List.lookup_append, gone]
  · have kept : (t.entries.filter (·.1 != place)).lookup other = t.entries.lookup other := by
      induction t.entries with
      | nil => rfl
      | cons e rest ih =>
        obtain ⟨l, n⟩ := e
        by_cases hl : l = place
        · subst hl
          simp [List.lookup_cons, beq_eq_false_iff_ne.mpr hp, ih]
        · simp [List.lookup_cons, hl, ih]
    simp [node?, put, hp, List.lookup_append, kept, List.lookup_cons, beq_eq_false_iff_ne.mpr hp]

/-- Removes what stands at a location and everything below it. -/
def erase (t : FileTree) (place : Location) : FileTree :=
  { t with entries := t.entries.filter (!place.isPrefixOf ·.1) }

/-- Writes a file, in place of an earlier one. A link is written through. -/
def write? (t : FileTree) (path : String) (content : ByteArray) : Option FileTree :=
  match t.locate true path with
  | .error _ => none
  | .ok place =>
    match t.node? place with
    | some .directory => none
    | _ => some (t.put place (.file content))

/-- Creates a directory where nothing stands yet. -/
def makeDirectory? (t : FileTree) (path : String) : Option FileTree :=
  match t.locate false path with
  | .error _ => none
  | .ok place => if (t.node? place).isSome then none else some (t.put place .directory)

/-- Creates directories one after the other, unless they are there already. Says whether all are
there in the end. -/
def makeDirectories : List String → FileTree → Bool × FileTree
  | [], t => (true, t)
  | path :: paths, t =>
    if t.isDirectory path then makeDirectories paths t
    else
      match t.makeDirectory? path with
      | some t => makeDirectories paths t
      | none => (false, t)

/-- Gives a file another path, in place of a file or link there. Links are not followed. -/
def rename? (t : FileTree) (source target : String) : Option FileTree :=
  match t.locate false source, t.locate false target with
  | .ok old, .ok new =>
    match t.node? old, t.node? new with
    | none, _ | some .directory, _ | _, some .directory => none
    | some node, _ => some ((t.erase old).put new node)
  | _, _ => none

/-- Removes what a path leads to, with everything below it. Links are not followed. -/
def remove (t : FileTree) (path : String) : FileTree :=
  match t.locate false path with
  | .ok place => t.erase place
  | .error _ => t

/-- The paths below a location that do not lead to directories, relative to it, as they are shown. -/
def listing (t : FileTree) (place : Location) : List String :=
  (t.below place).filterMap fun (l, node) =>
    match node with
    | .directory => none
    | _ => some ("/".intercalate (l.map FileName.display))

end ServiceChains.FileTree
