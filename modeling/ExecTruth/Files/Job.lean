import ExecTruth.Files.Walk
import ExecTruth.Log.Logged
import ExecTruth.Stream.Blocks
import ExecTruth.Stream.Emission
import ExecTruth.Stream.Source

/-! # Jobs — work on files that reports on the way and may fail

    A job reads and changes a host, which is a file tree and the events reported
    so far.  What a job has changed stays changed when it fails.  The operations
    here are those of the file system: reading, making and removing things, and
    writing through a file that was opened and emptied first.

    Bytes on the way to a file are held back and handed on in blocks, so a full device
    is noticed when a block is handed on or at the end. -/

namespace ExecTruth

/-- What jobs work on. -/
structure Host where
  files : FileTree
  /-- The events reported so far, earliest first. -/
  events : List Log.Event
  deriving Repr

/-- Work on a host that gives an `α` or fails with an `ε`. -/
abbrev Job (ε α : Type) : Type := EStateM ε Host α

namespace Job

variable {ε ε' α : Type}

/-- The value of a logged computation. -/
def ofLogged (l : Logged α) : Job ε α := fun h =>
  let (a, events) := l h.events
  .ok a { h with events }

/-- Reports an event. -/
def log (e : Log.Event) : Job ε Unit := ofLogged (Log.report e)

/-- The same work with its events in a span. -/
def inSpan (s : Log.Span) (job : Job ε α) : Job ε α := fun h =>
  let around (inner : Host) : Host :=
    { inner with events := h.events ++ inner.events.map (Log.Event.within s) }
  match job { h with events := [] } with
  | .ok a inner => .ok a (around inner)
  | .error e inner => .error e (around inner)

/-- The file tree as it is. -/
def files : Job ε FileTree := return (← get).files

/-- Changes the file tree. -/
def changeFiles (f : FileTree → FileTree) : Job ε Unit :=
  modify fun h => { h with files := f h.files }

/-- The same work with its faults wrapped. -/
def wrap (f : ε → ε') (job : Job ε α) : Job ε' α := EStateM.adaptExcept f job

/-- The value, or the fault. -/
def ofExcept (r : Except ε α) : Job ε α :=
  match r with
  | .ok a => pure a
  | .error e => throw e

/-- The same work with its fault as a value. -/
def attempt (job : Job ε α) : Job ε' (Except ε α) := fun h =>
  match job h with
  | .ok a h => .ok (.ok a) h
  | .error e h => .ok (.error e) h

/-! ## Reading -/

/-- The bytes that reading a node hands out.  The full device never stops; a few
    of its zeros stand for all. -/
def sourceOf : Node → Source
  | .file contents => .ofBytes contents
  | .directory => .failing .isDirectory
  | .link _ => .failing .tooManyLinks
  | .nullDevice => .ofBytes []
  | .fullDevice => .ofBytes (List.replicate 16 0)

/-- Opens a path for reading. -/
def openSource (p : Path) : Job IoFault Source := do
  let (_, node) ← ofExcept ((← files).locate p)
  return sourceOf node

/-- The contents of the file at a path. -/
def readAll (p : Path) : Job IoFault (List UInt8) := do
  ofExcept (← openSource p).readAll

/-- The contents of the file at a path, mapped into memory. -/
def mapFile (p : Path) : Job IoFault (List UInt8) := do
  match ← ofExcept ((← files).locate p) with
  | (_, .file contents) =>
      if contents.isEmpty then throw .emptyMapping else return contents
  | (_, .directory) => throw .notMappable
  | _ => throw .emptyMapping

/-- The names and things in the directory at a path. -/
def listDirectory (p : Path) : Job IoFault (List (List UInt8 × Node)) := do
  let t ← files
  match ← ofExcept (t.locate p) with
  | (loc, .directory) => return t.entries loc
  | _ => throw .notDirectory

/-! ## Writing -/

/-- What a file opened for writing writes to. -/
inductive Target where
  | file (loc : Location)
  | nullDevice
  | fullDevice
  deriving DecidableEq, Repr

/-- Opens a path for writing; a file there is emptied, and made if there is none. -/
def create (p : Path) : Job IoFault Target := do
  match ← ofExcept (Walk.run .file (← files) p) with
  | .absent dir name =>
      changeFiles fun t => t.put (dir ++ [name]) (.file [])
      return .file (dir ++ [name])
  | .found loc (.file _) =>
      changeFiles fun t => t.put loc (.file [])
      return .file loc
  | .found _ .nullDevice => return .nullDevice
  | .found _ .fullDevice => return .fullDevice
  | .found _ _ => throw .isDirectory

/-- The contents of a file with bytes written over them from a position on. -/
def overwritten (old : List UInt8) (position : Nat) (bytes : List UInt8) : List UInt8 :=
  old.take position ++ List.replicate (position - old.length) 0 ++ bytes
    ++ old.drop (position + bytes.length)

/-- Writes over what is at a location. -/
def overwrite (loc : Location) (position : Nat) (bytes : List UInt8) (t : FileTree) : FileTree :=
  match t.find? loc with
  | some (.file old) => t.put loc (.file (overwritten old position bytes))
  | _ => t

/-- Writes to a target from a position on what can be written there. -/
def Target.write (target : Target) (position : Nat) (bytes : List UInt8) : Job ε Unit :=
  match target with
  | .file loc => changeFiles (overwrite loc position bytes)
  | .nullDevice | .fullDevice => pure ()

/-- Whether a target fails to take bytes, `closed` or with more to come. -/
def Target.refuses (target : Target) (closed : Bool) (bytes : List UInt8) : Bool :=
  match target with
  | .fullDevice => if closed then !bytes.isEmpty else Blocks.size < bytes.length
  | _ => false

/-- Writes an emission to a target, whose own failure is `ofIo`. -/
def Target.send (target : Target) (ofIo : IoFault → ε) (em : Emission ε) : Job ε Unit := do
  target.write 0 em.bytes
  if target.refuses em.fault.isNone em.bytes then throw (ofIo .deviceFull)
  ofExcept em.outcome

/-- Makes a file of the bytes at a path. -/
def writeAll (p : Path) (bytes : List UInt8) : Job IoFault Unit := do
  (← create p).send id ⟨bytes, none⟩

/-! ## Making and removing things -/

/-- Makes a directory. -/
def makeDirectory (p : Path) : Job IoFault Unit := do
  match ← ofExcept (Walk.run .entry (← files) p) with
  | .found _ _ => throw .alreadyThere
  | .absent dir name => changeFiles fun t => t.put (dir ++ [name]) .directory

/-- Makes a directory and those above it; `depth` of them at most. -/
def makeDirectoriesIn : (depth : Nat) → Path → Job IoFault Unit
  | depth, p => do
      if p.bytes.isEmpty then return
      match ← attempt (makeDirectory p) with
      | .ok () => return
      | .error .missing =>
          match depth, p.parent? with
          | depth + 1, some parent =>
              makeDirectoriesIn depth parent
              match ← attempt (makeDirectory p) with
              | .ok () => return
              | .error e => if (← files).isDirectory p then return else throw e
          | _, _ => throw .noWholeTree
      | .error e => if (← files).isDirectory p then return else throw e

/-- Makes a directory and those above it that are missing. -/
def makeDirectories (p : Path) : Job IoFault Unit :=
  makeDirectoriesIn p.components.length p

/-- Makes a symbolic link to `target`. -/
def makeLink (target p : Path) : Job IoFault Unit := do
  if target.bytes.contains 0 ∨ p.bytes.contains 0 then throw .nulInName
  if let some fault := target.fault? then throw fault
  match ← ofExcept (Walk.run .entry (← files) p) with
  | .found _ _ => throw .alreadyThere
  | .absent dir name =>
      if p.bytes.getLast? = some Path.slash then throw .missing
      changeFiles fun t => t.put (dir ++ [name]) (.link target)

/-- Removes a file or a symbolic link. -/
def removeFile (p : Path) : Job IoFault Unit := do
  match ← ofExcept (Walk.run .entry (← files) p) with
  | .absent _ _ => throw .missing
  | .found _ .directory => throw .isDirectory
  | .found loc _ =>
      if p.bytes.getLast? = some Path.slash then throw .notDirectory
      changeFiles fun t => t.erase loc

end Job

end ExecTruth
