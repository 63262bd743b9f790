import ExecTruth.Explained

/-! # I/O faults — what reading and writing can run into

    The faults of a file system have the wording and the number the operating
    system gives them.  A reader from elsewhere brings its own wording. -/

namespace ExecTruth

/-- A failure to read, write or name a file. -/
inductive IoFault where
  /-- Nothing has that name. -/
  | missing
  /-- Something has that name already. -/
  | alreadyThere
  /-- The thing may not be used so. -/
  | notPermitted
  /-- The thing cannot be mapped into memory. -/
  | notMappable
  /-- A directory was expected. -/
  | notDirectory
  /-- A directory was not expected. -/
  | isDirectory
  /-- The device takes no more bytes. -/
  | deviceFull
  /-- A name is longer than a directory can hold. -/
  | nameTooLong
  /-- More symbolic links lead on than are followed. -/
  | tooManyLinks
  /-- A name contains a NUL byte. -/
  | nulInName
  /-- A writer accepted no byte of what was left to write. -/
  | writerStopped
  /-- An empty file cannot be mapped into memory. -/
  | emptyMapping
  /-- Bytes that should be text are not. -/
  | notText
  /-- A directory could not be made although its parents are there. -/
  | noWholeTree
  /-- A reader's own report that its bytes ended too early. -/
  | endedEarly (message : String)
  /-- Any other report of a reader, under the name it gives its kind of fault. -/
  | reported (kind message : String)
  deriving DecidableEq, Repr

/-- The wording of an I/O fault. -/
def IoFault.message : IoFault → String
  | .missing => "No such file or directory (os error 2)"
  | .notPermitted => "Permission denied (os error 13)"
  | .alreadyThere => "File exists (os error 17)"
  | .notMappable => "No such device (os error 19)"
  | .notDirectory => "Not a directory (os error 20)"
  | .isDirectory => "Is a directory (os error 21)"
  | .deviceFull => "No space left on device (os error 28)"
  | .nameTooLong => "File name too long (os error 36)"
  | .tooManyLinks => "Too many levels of symbolic links (os error 40)"
  | .nulInName => "file name contained an unexpected NUL byte"
  | .writerStopped => "failed to write whole buffer"
  | .emptyMapping => "memory map must have a non-zero length"
  | .notText => "stream did not contain valid UTF-8"
  | .noWholeTree => "failed to create whole tree"
  | .endedEarly message => message
  | .reported _ message => message

instance : Explained IoFault := ⟨IoFault.message, fun _ => []⟩

end ExecTruth
