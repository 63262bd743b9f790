import ExecTruth.Files.Path

/-! # File trees — directories, files, links and devices as one value

    A tree maps locations, lists of names from the root down, to what stands
    there.  `find?_put` says that putting something at a location changes what is
    found there and nowhere else, and `find?_erase` says the same of removing. -/

namespace ExecTruth

/-- A place in a file tree: the names from the root down. -/
abbrev Location := List (List UInt8)

/-- What stands at a location. -/
inductive Node where
  | file (contents : List UInt8)
  | directory
  /-- A symbolic link to a path. -/
  | link (target : Path)
  /-- A device that is empty to read and takes all that is written. -/
  | nullDevice
  /-- A device that reads as zeros and takes nothing. -/
  | fullDevice
  deriving DecidableEq, Repr

/-- The things of a file system by location, and the directory that relative
    paths begin at. -/
structure FileTree where
  nodes : List (Location × Node)
  workDir : Location
  deriving Repr

namespace FileTree

/-- What stands at a location; the root is a directory. -/
def find? (t : FileTree) (loc : Location) : Option Node :=
  if loc = [] then some .directory else (t.nodes.find? (·.1 = loc)).map (·.2)

/-- Puts something at a location in the place of what stands there. -/
def putIn (loc : Location) (node : Node) : List (Location × Node) → List (Location × Node)
  | [] => [(loc, node)]
  | e :: r => if e.1 = loc then (loc, node) :: r else e :: putIn loc node r

/-- Puts something at a location in the place of what stands there. -/
def put (t : FileTree) (loc : Location) (node : Node) : FileTree :=
  { t with nodes := putIn loc node t.nodes }

/-- Removes what stands at a location. -/
def erase (t : FileTree) (loc : Location) : FileTree :=
  { t with nodes := t.nodes.filter (·.1 ≠ loc) }

/-- The names and things right inside a directory, in the order of the tree. -/
def entries (t : FileTree) (dir : Location) : List (List UInt8 × Node) :=
  t.nodes.filterMap fun (loc, node) =>
    match loc.getLast? with
    | some name => if loc.dropLast = dir then some (name, node) else none
    | none => none

/-- The locations and things anywhere inside a directory, relative to it. -/
def below (t : FileTree) (dir : Location) : List (Location × Node) :=
  t.nodes.filterMap fun (loc, node) =>
    if dir.isPrefixOf loc ∧ loc ≠ dir then some (loc.drop dir.length, node) else none

/-- What was put at a place is found there, and everything else where it was. -/
theorem find?_putIn (loc loc' : Location) (node : Node) (l : List (Location × Node)) :
    (putIn loc node l).find? (·.1 = loc')
      = if loc = loc' then some (loc, node) else l.find? (·.1 = loc') := by
  induction l with
  | nil => by_cases h : loc = loc' <;> simp [putIn, h]
  | cons e r ih =>
      unfold putIn
      by_cases he : e.1 = loc
      · by_cases h : loc = loc' <;> simp [he, h]
      · rw [if_neg he, List.find?_cons, List.find?_cons, ih]
        by_cases h : loc = loc'
        · subst h; simp [he]
        · simp [h]

/-- Putting a node changes what is at its location and nothing else. -/
theorem find?_put {t : FileTree} {loc : Location} (h : loc ≠ []) (node : Node)
    (loc' : Location) :
    (t.put loc node).find? loc' = if loc = loc' then some node else t.find? loc' := by
  unfold find? put
  by_cases h' : loc' = []
  · subst h'; simp [h]
  · simp only [h', if_false, find?_putIn]
    by_cases e : loc = loc' <;> simp [e]

/-- Erasing leaves nothing at a location, and the rest as it was; the root is always there. -/
theorem find?_erase (t : FileTree) (loc loc' : Location) :
    (t.erase loc).find? loc'
      = if loc' = [] then some .directory
        else if loc = loc' then none else t.find? loc' := by
  unfold find? erase
  by_cases h' : loc' = []
  · simp [h']
  · simp only [h', if_false, List.find?_filter]
    by_cases e : loc = loc'
    · subst e; simp
    · rw [if_neg e]
      congr 2
      funext a
      by_cases ha : a.1 = loc'
      · simpa [ha] using fun h => e h.symm
      · simp [ha]

end FileTree

end ExecTruth
