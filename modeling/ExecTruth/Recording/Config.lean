import ExecTruth.Files.Canonical
import ExecTruth.Files.Job

/-! # Session configurations — which binary is traced and where its capture goes

    A configuration is read from arguments of the form `key=value`, of which the last
    of each key counts.  The binary has to exist and is named by its path without
    symbolic links; the capture goes to a file named after it unless told otherwise. -/

namespace ExecTruth

/-- What a session traces and where it writes. -/
structure SessionConfig where
  binary : Path
  output : Path
  /-- Where a legacy capture is to be written as well. -/
  legacy : Option Path
  deriving DecidableEq, Repr

/-- A failure to configure a session. -/
inductive ConfigFault where
  /-- No binary is named. -/
  | missingBinary
  /-- The binary is not to be found. -/
  | binary (path : Path) (fault : IoFault)
  deriving DecidableEq, Repr

namespace ConfigFault

/-- The wording of a configuration fault. -/
def message : ConfigFault → String
  | .missingBinary => "missing required argument 'binary=<path>'"
  | .binary path _ => "unable to locate traced binary " ++ path.quoted

/-- The causes of a configuration fault. -/
def causes : ConfigFault → List String
  | .missingBinary => []
  | .binary _ fault => Explained.chain fault

instance : Explained ConfigFault := ⟨message, causes⟩

end ConfigFault

/-- The part that reports on sessions. -/
def sessionPart : String := "groundtruth::session"

/-- The values that arguments give to the keys. -/
structure SessionArgs where
  binary : Option String
  output : Option String
  legacy : Option String

namespace SessionArgs

/-- The values with one more argument. -/
def add (args : SessionArgs) (arg : String) : Logged SessionArgs := do
  match Text.cutOnce '=' arg.toList with
  | none =>
      Log.report (Log.event .warn sessionPart "skipping argument with no value (missing '=')"
        [("arg", Text.quoted arg)])
      return args
  | some (key, value) =>
      let value := String.ofList value
      match String.ofList key with
      | "binary" => return { args with binary := some value }
      | "output" => return { args with output := some value }
      | "legacy" => return { args with legacy := some value }
      | key =>
          Log.report (Log.event .warn sessionPart "skipping unknown argument"
            [("arg", Text.quoted key)])
          return args

/-- No values. -/
def none : SessionArgs := ⟨.none, .none, .none⟩

/-- The values of several arguments, one after the other. -/
def ofList (args : List String) : Logged SessionArgs := args.foldlM add none

end SessionArgs

namespace SessionConfig

/-- The file that the capture of a binary goes to by default. -/
def defaultOutput (binary : Path) : Path :=
  ⟨binary.fileName?.getD [] ++ Text.Utf8.encode ".capture"⟩

/-- The configuration that values make. -/
def ofValues (args : SessionArgs) : Job ConfigFault SessionConfig := do
  match args.binary with
  | none => throw .missingBinary
  | some binary =>
      let given := Path.ofString binary
      let binary ← Job.wrap (.binary given)
        (do Job.ofExcept ((← Job.files).canonical given))
      let output := match args.output with
        | some output => Path.ofString output
        | none => defaultOutput binary
      return ⟨binary, output, args.legacy.map Path.ofString⟩

/-- Reads a configuration from arguments. -/
def ofArgs (args : List String) : Job ConfigFault SessionConfig := do
  ofValues (← Job.ofLogged (SessionArgs.ofList args))

end SessionConfig

end ExecTruth
