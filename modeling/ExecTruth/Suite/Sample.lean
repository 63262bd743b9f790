import ExecTruth.Scoring.Comparison

/-! # Samples — the captures of a directory with their static counterparts

    A regular file `<name>.capture` is a sample if there is a static capture called
    `<name>` with a suffix in another directory.  Samples are listed by name, and a
    capture without a counterpart is reported and left out. -/

namespace ExecTruth

/-- The dynamic and the static capture of a binary. -/
structure Sample where
  name : String
  dynamicPath : Path
  staticPath : Path
  deriving DecidableEq, Repr

namespace Sample

/-- The part that reports on samples. -/
def part : String := "groundtruth::batch"

/-- The extension of the captures that are looked for. -/
def extension : List UInt8 := Text.Utf8.encode "capture"

/-- The sample of a directory entry, or nothing. -/
def ofFile? (dynamicDir staticDir : Path) (suffix : String) :
    List UInt8 × Node → Job BatchFault (Option Sample)
  | (fileName, .file _) => do
      let (stem, ending) := Path.splitExtension fileName
      if ending ≠ some extension then return none
      let dynamicPath := dynamicDir.join ⟨fileName⟩
      match Text.Utf8.decode stem with
      | .error _ =>
          Job.log (Log.event .warn part "skipping capture with non-UTF-8 name"
            [("path", dynamicPath.display)])
          return none
      | .ok name =>
          let staticPath := staticDir.join (Path.ofString (name ++ suffix))
          if (← Job.files).isFile staticPath then return some ⟨name, dynamicPath, staticPath⟩
          Job.log (Log.event .warn part "static capture not found, skipping"
            [("sample", Text.quoted name), ("path", staticPath.display)])
          return none
  | _ => return none

/-- The samples of a directory, ascending by name. -/
def findAll (dynamicDir staticDir : Path) (suffix : String) : Job BatchFault (List Sample) := do
  let entries ← Job.wrap (.list dynamicDir) (Job.listDirectory dynamicDir)
  let samples ← entries.filterMapM (ofFile? dynamicDir staticDir suffix)
  return samples.mergeSort fun a b =>
    Path.nameLe (Text.Utf8.encode a.name) (Text.Utf8.encode b.name)

end Sample

end ExecTruth
