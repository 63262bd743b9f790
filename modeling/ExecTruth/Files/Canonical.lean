import ExecTruth.Files.Walk

/-! # Canonical paths — absolute paths without symbolic links, dots and extra slashes

    The canonical path of a path is found name by name: each name is put behind the
    canonical path so far and looked at there, and the target of a symbolic link takes
    the place of its name.  So only canonical paths are ever walked, and however many
    dots and slashes a path has, it is not too long for that. -/

namespace ExecTruth

namespace Canonical

/-- Whether what stands in front of steps has to be a directory for their sake. -/
def needsDirectory : List Path.Step → Bool
  | [] => false
  | [.here] => true
  | .here :: rest => needsDirectory rest
  | .up :: _ | .trailing :: _ => true
  | .name _ :: _ => false

/-- The steps of a symbolic link's target and then those behind the link. -/
def splice (target rest : List Path.Step) : List Path.Step :=
  if rest = [] then target else target.filter (· ≠ .trailing) ++ rest

/-- Makes sure that there is a directory at a location. -/
def checkDirectory (t : FileTree) (loc : Location) : Except IoFault Unit := do
  let p := FileTree.pathOf loc
  let _ ← t.locate ⟨p.bytes ++ [Path.slash]⟩

/-- The location that steps lead to from another, which is canonical; `links` more
    symbolic links may be followed. -/
def resolve (t : FileTree) (links : Nat) (loc : Location) :
    List Path.Step → Except IoFault Location
  | [] | .trailing :: _ => .ok loc
  | .here :: rest => resolve t links loc rest
  | .up :: rest => resolve t links loc.dropLast rest
  | .name n :: rest =>
      match Walk.run .entry t (FileTree.pathOf (loc ++ [n])) with
      | .error fault => .error fault
      | .ok (.absent _ _) => .error .missing
      | .ok (.found _ (.link target)) =>
          match links with
          | 0 => .error .tooManyLinks
          | links + 1 =>
              resolve t links (if target.isAbsolute then [] else loc) (splice target.steps rest)
      | .ok (.found _ _) =>
          if needsDirectory rest then
            match checkDirectory t (loc ++ [n]) with
            | .error fault => .error fault
            | .ok () => resolve t links (loc ++ [n]) rest
          else resolve t links (loc ++ [n]) rest
termination_by steps => (links, steps.length)

end Canonical

/-- The canonical path of what a path leads to. -/
def FileTree.canonical (t : FileTree) (p : Path) : Except IoFault Path :=
  if p.bytes.contains 0 then .error .nulInName
  else if p.bytes = [] then .error .missing
  else (Canonical.resolve t Walk.maxLinks (Walk.startOf t p) p.steps).map FileTree.pathOf

end ExecTruth
