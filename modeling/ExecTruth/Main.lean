import ExecTruth.Tool.Basic

/-! # The command line — the tools on the files of this machine

    `main` takes the name of a tool and the tool's own arguments.  It reads the files
    that the arguments name, and those right inside directories they name, into a
    file tree, runs the tool on that tree, and writes back what has changed.  Events
    are filtered by the variable `GT_LOG`.  It starts no other program, so no
    disassembler can be run. -/

namespace ExecTruth.CommandLine

/-- The location of an absolute path, without regard to symbolic links. -/
def locationOf (path : String) : Location :=
  (Path.ofString path).components.foldl
    (fun loc c =>
      match c with
      | .root | .here => loc
      | .up => loc.dropLast
      | .name bytes => loc ++ [bytes])
    []

/-- The spelling of the absolute path of a location. -/
def spell (loc : Location) : String := (FileTree.pathOf loc).display

/-- Adds the directories that lead to a location. -/
def addAbove (loc : Location) (t : FileTree) : FileTree :=
  (List.range loc.length).foldl
    (fun t n =>
      let above := loc.take n
      if above = [] ∨ (t.find? above).isSome then t else t.put above .directory)
    t

/-- Adds the regular file at a location. -/
def addFile (loc : Location) (t : FileTree) : IO FileTree := do
  let contents ← IO.FS.readBinFile (spell loc)
  return (addAbove loc t).put loc (.file contents.toList)

/-- Where a location is on this machine. -/
def onDisk (loc : Location) := (· / spell loc) <$> IO.currentDir

/-- Adds an entry of a directory; a symbolic link is added with what it leads to. -/
def addEntry (loc : Location) (t : FileTree) : IO FileTree := do
  if !(← (← onDisk loc).pathExists) then
    return t
  let real ← IO.FS.realPath (spell loc)
  if ← real.isDir then
    return t.put loc .directory
  let realLoc := locationOf real.toString
  if realLoc = loc then addFile loc t
  else return (← addFile realLoc t).put loc (.link (FileTree.pathOf realLoc))

/-- Adds what is at a location, if anything is. -/
def addPlace (loc : Location) (t : FileTree) : IO FileTree := do
  if (t.find? loc).isSome then return t
  let place ← onDisk loc
  if ← place.isDir then
    let t := (addAbove loc t).put loc .directory
    (← place.readDir).foldlM (fun t e => addEntry (loc ++ [Text.Utf8.encode e.fileName]) t) t
  else if ← place.pathExists then addFile loc t
  else return t

/-- The location that a path leads to from a working directory. -/
def locate (workDir : Location) (path : String) : Location :=
  if path.startsWith "/" then locationOf path else locationOf (spell workDir ++ "/" ++ path)

/-- The files that arguments name. -/
def snapshot (args : List String) : IO FileTree := do
  let workDir := locationOf (← IO.currentDir).toString
  let named := args.map (locate workDir)
  let fresh : FileTree :=
    ⟨[([Text.Utf8.encode "dev"], .directory),
      ([Text.Utf8.encode "dev", Text.Utf8.encode "null"], .nullDevice),
      ([Text.Utf8.encode "dev", Text.Utf8.encode "full"], .fullDevice)], workDir⟩
  let t := addAbove (workDir ++ [[]]) fresh
  let t ← (named.map List.dropLast).foldlM (fun t loc => addPlace loc t) t
  named.foldlM (fun t loc => addPlace loc t) t

/-- Writes what has changed between two trees. -/
def writeChanges (before after : FileTree) : IO Unit :=
  after.nodes.forM fun (loc, node) => do
    if before.find? loc ≠ some node then
      match node with
      | .file contents => IO.FS.writeBinFile (spell loc) contents.toByteArray
      | .directory => IO.FS.createDirAll (spell loc)
      | .link _ | .nullDevice | .fullDevice => return

end ExecTruth.CommandLine

open ExecTruth in
/-- Runs the tool that the first argument names on the other arguments. -/
def main (args : List String) : IO UInt32 := do
  match args with
  | [] => return 2
  | name :: line =>
      match Tool.ofName? name with
      | none => return 2
      | some tool =>
          let filter := Log.Filter.ofString ((← IO.getEnv "GT_LOG").getD "")
          let files ← CommandLine.snapshot line
          let (outcome, changed) := tool.run .unavailable filter line files
          CommandLine.writeChanges files changed
          IO.print outcome.shown
          IO.eprint outcome.complaints
          return outcome.status.toUInt32
