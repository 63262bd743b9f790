import ExecTruth.Files.Tree
import ExecTruth.IoFault

/-! # Walks — from a path to a place in the file tree

    A walk goes one step after the other, and every step starts from a directory.
    A symbolic link in the way is followed, and forty of them at most; what is done
    with one at the end depends on the aim of the walk.  A walk ends at what it found,
    or next to a name that its last step did not find in an existing directory. -/

namespace ExecTruth

/-- Where a walk ends. -/
inductive Place where
  | found (loc : Location) (node : Node)
  /-- Nothing has that name in the directory. -/
  | absent (dir : Location) (name : List UInt8)
  deriving DecidableEq, Repr

/-- What a walk looks for. -/
inductive Aim where
  /-- Something that exists; a symbolic link at the end is followed. -/
  | thing
  /-- A file, to be made if there is none, so that no slash may follow its name; a
      symbolic link at the end is followed. -/
  | file
  /-- A name in a directory, with or without a slash behind it; a symbolic link at the
      end is not followed. -/
  | entry
  deriving DecidableEq, Repr

/-- The length at which a path is too long, in bytes. -/
def Path.tooLong : Nat := 4096

/-- What is wrong with a path that leads nowhere in any tree. -/
def Path.fault? (p : Path) : Option IoFault :=
  if p.bytes.contains 0 then some .nulInName
  else if p.bytes = [] then some .missing
  else if tooLong ≤ p.bytes.length then some .nameTooLong
  else none

namespace Walk

/-- The longest name a directory can hold, in bytes. -/
def maxName : Nat := 255

/-- The number of symbolic links that a walk follows. -/
def maxLinks : Nat := 40

/-- Walks the steps from a place; `links` more symbolic links may be followed. -/
def go (aim : Aim) (t : FileTree) (links : Nat) (loc : Location) (node : Node) :
    List Path.Step → Except IoFault Place
  | [] => .ok (.found loc node)
  | step :: rest =>
      if node ≠ .directory then .error .notDirectory
      else
        match step with
        | .here | .trailing => go aim t links loc node rest
        | .up => go aim t links loc.dropLast .directory rest
        | .name n =>
            if aim = .file ∧ rest = [.trailing] then .error .isDirectory
            else if maxName < n.length then .error .nameTooLong
            else
              match t.find? (loc ++ [n]) with
              | none => if rest = [] then .ok (.absent loc n) else .error .missing
              | some (.link target) =>
                  if rest = [] ∧ aim = .entry then .ok (.found (loc ++ [n]) (.link target))
                  else
                    match links with
                    | 0 => .error .tooManyLinks
                    | links + 1 =>
                        let start := if target.isAbsolute then [] else loc
                        go aim t links start .directory (target.steps ++ rest)
              | some inner => go aim t links (loc ++ [n]) inner rest
termination_by steps => (links, steps.length)

/-- The steps of a path that count for an aim. -/
def stepsOf (aim : Aim) (p : Path) : List Path.Step :=
  if aim = .entry then p.steps.filter (· ≠ .trailing) else p.steps

/-- Where the walk along a path begins. -/
def startOf (t : FileTree) (p : Path) : Location := if p.isAbsolute then [] else t.workDir

/-- Walks a path from the working directory, or from the root. -/
def run (aim : Aim) (t : FileTree) (p : Path) : Except IoFault Place :=
  match p.fault? with
  | some fault => .error fault
  | none => go aim t maxLinks (startOf t p) .directory (stepsOf aim p)

end Walk

namespace FileTree

/-- The place of what exists at a path, with symbolic links followed. -/
def locate (t : FileTree) (p : Path) : Except IoFault (Location × Node) :=
  match Walk.run .thing t p with
  | .ok (.found loc node) => .ok (loc, node)
  | .ok (.absent _ _) => .error .missing
  | .error e => .error e

/-- Whether a path leads to anything, with symbolic links followed. -/
def reaches (t : FileTree) (p : Path) : Bool := (t.locate p).isOk

/-- Whether a path leads to a directory. -/
def isDirectory (t : FileTree) (p : Path) : Bool :=
  match t.locate p with
  | .ok (_, .directory) => true
  | _ => false

/-- Whether a path leads to a regular file. -/
def isFile (t : FileTree) (p : Path) : Bool :=
  match t.locate p with
  | .ok (_, .file _) => true
  | _ => false

/-- The absolute path of a location. -/
def pathOf (loc : Location) : Path :=
  Path.ofComponents (.root :: loc.map .name)

end FileTree

end ExecTruth
