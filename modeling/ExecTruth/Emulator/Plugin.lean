import ExecTruth.Emulator.Memory
import ExecTruth.Log.Filter
import ExecTruth.Recording.Session
import ExecTruth.Recording.WorkerCache

/-! # The plugin — a session driven by an emulator

    The emulator installs the plugin once and then calls it: when a processor of the
    guest starts, when a block of instructions is translated, when an instruction
    with a token is executed, and when the run ends.  The plugin gives every
    instruction of the traced binary a token as it is translated, and records the
    tokens that are executed.  A call that goes wrong ends the process. -/

namespace ExecTruth

/-- The end of the process, with a failure. -/
inductive ProcessEnd where
  | failed
  deriving DecidableEq, Repr

/-- An instruction as it was translated, which its executions are told by. -/
abbrev Token := Instruction

/-- The state of the plugin in a process. -/
structure Plugin where
  /-- The session, once the plugin is installed. -/
  session : Option Session
  cache : WorkerCache

/-- What the emulator tells of the guest. -/
structure GuestInfo where
  /-- Whether a whole machine is emulated. -/
  system : Bool
  /-- The name of the guest's architecture. -/
  target : Option (List UInt8)
  deriving DecidableEq, Repr

/-- What the emulator calls the plugin's installation with. -/
structure Installation where
  /-- The number of arguments. -/
  count : Int
  /-- The arguments, if there is a list of them at all; any may be missing. -/
  args : Option (List (Option (List UInt8)))
  info : Option GuestInfo
  deriving DecidableEq, Repr

namespace Plugin

/-- The version of the emulator's interface. -/
def version : Nat := 2

/-- The number that the emulator knows the plugin by. -/
def id : Nat := 7

/-- The part that reports on the plugin. -/
def part : String := "capture_qemu_user::plugin"

/-- The part that reports on the interface with the emulator. -/
def interfacePart : String := "capture_qemu_user::qemu"

/-- The part that reports on the session of the process. -/
def capturePart : String := "capture_qemu_user::capture"

/-- The plugin before it is installed. -/
def fresh : Plugin := ⟨none, .empty⟩

/-- The span of a call. -/
def span (name : String) (fields : List (String × Log.Value)) : Log.Span :=
  Log.span .trace part name (("id", .word id) :: fields)

/-- Reports what went wrong in a call, which then ends the process. -/
def endProcess {α : Type} (call : String) : Job ProcessEnd α := do
  Job.log (Log.event .error interfacePart ("panic occured in " ++ call ++ " callback, exiting") [])
  throw .failed

/-! ## Installation -/

/-- A text that ends at the first NUL. -/
def untilNul (bytes : List UInt8) : List UInt8 := bytes.takeWhile (· ≠ 0)

/-- Reads arguments, the first of them with the number `n`. -/
def readArgs (n : Nat) (args : SessionArgs) : List (Option (List UInt8)) → Logged SessionArgs
  | [] => return args
  | none :: rest => do
      Log.report (Log.event .warn part "skipping null argument" [("n", toString n)])
      readArgs (n + 1) args rest
  | some bytes :: rest => do
      let bytes := untilNul bytes
      match Text.Utf8.decode bytes with
      | .ok arg => readArgs (n + 1) (← args.add arg) rest
      | .error _ =>
          Log.report (Log.event .warn part "skipping argument with non-UTF-8 data"
            [("n", toString n), ("arg", Text.byteQuoted bytes)])
          readArgs (n + 1) args rest

/-- The arguments that an installation counts; those beyond the list are missing. -/
def counted (inst : Installation) : List (Option (List UInt8)) :=
  let given := inst.args.getD []
  let count := inst.count.toNat
  given.take count ++ List.replicate (count - given.length) none

/-- The name of the guest's architecture. -/
def architecture (info : GuestInfo) : Logged String := do
  match info.target with
  | none => return "unknown"
  | some bytes =>
      let bytes := untilNul bytes
      match Text.Utf8.decode bytes with
      | .ok name => return name
      | .error _ =>
          Log.report (Log.event .warn interfacePart "target name contains non-UTF-8 characters"
            [("target_name", Text.byteQuoted bytes)])
          return "unknown"

/-- The announcement of a capture. -/
def announcement (config : SessionConfig) (architecture : String) : Log.Event :=
  Log.event .info part "capturing executed instructions"
    [("arch", Text.quoted architecture), ("binary", config.binary.display),
     ("output", config.output.display)]

/-- The span of an installation. -/
def installSpan : Log.Span := span "on_plugin_install" []

/-- Installs the plugin for a guest.  The architecture is looked at only if the
    announcement is shown. -/
def installFor (filter : Log.Filter) (info : GuestInfo) (args : List (Option (List UInt8)))
    (p : Plugin) : Job ProcessEnd Plugin := do
  if info.system then
    Job.log (Log.event .error part "instruction capture only supports user-mode emulation" [])
    throw .failed
  let args ← Job.ofLogged (readArgs 0 .none args)
  match ← Job.attempt (SessionConfig.ofValues args) with
  | .error fault =>
      Job.log (Log.event .error part "invalid plugin arguments" [("error", fault.message)])
      throw .failed
  | .ok config =>
      let announced := filter.shows ((announcement config "unknown").within installSpan)
      let name ← Job.ofLogged (if announced then architecture info else pure "unknown")
      Job.log (announcement config name)
      match p.session with
      | some _ =>
          Job.log (Log.event .error capturePart "capture session is already initialized" [])
          throw .failed
      | none => return { p with session := some (.start config) }

/-- Checks an installation and carries it out, with a filter that could be read. -/
def installChecked (filter : Log.Filter) (inst : Installation) (p : Plugin) :
    Job ProcessEnd Plugin := do
  if filter.isTorn then throw .failed
  if inst.count < 0 then
    Job.log (Log.event .error part "unexpected value for argc" [("argc", toString inst.count)])
    throw .failed
  if 0 < inst.count ∧ inst.args.isNone then
    Job.log (Log.event .error part "unexpected value for argv" [("argv", "0x0")])
    throw .failed
  match inst.info with
  | none =>
      Job.log (Log.event .error interfacePart "plugin info is null" [])
      throw .failed
  | some info => Job.inSpan installSpan (installFor filter info (counted inst) p)

/-- Installs the plugin, and tells whether that succeeded.  A failure leaves the plugin
    as it is. -/
def install {ε : Type} (filter : Log.Filter) (inst : Installation) (p : Plugin) :
    Job ε (Bool × Plugin) := do
  match ← Job.attempt (installChecked filter inst p) with
  | .ok p => return (true, p)
  | .error _ => return (false, p)

/-! ## Calls -/

/-- A processor of the guest starts on a thread of the emulator. -/
def onProcessor (thread vcpu : Nat) (s : Session) : Job ProcessEnd Session :=
  Job.inSpan (span "on_vcpu_init" [("vcpu", .word vcpu)]) do
    let (_, s) ← Job.ofLogged (s.setFor vcpu)
    Job.log (Log.event .debug part "vcpu started"
      [("vcpu", toString vcpu), ("tid", toString thread)])
    return s

/-- An instruction of a block gets its token, if it is one of the traced binary. -/
def translateOne (source : MapsSource) (vaddr : UInt64) (size : Nat) (s : Session) :
    Job ProcessEnd (Option Token × Session) := do
  let (answer, s) ← Job.ofLogged (s.instructionAt source vaddr size)
  match answer with
  | .error fault =>
      Job.log (Log.event .error part "unable to resolve instruction address"
        [("error", fault.message)])
      throw .failed
  | .ok none => return (none, s)
  | .ok (some token) =>
      Job.log (Log.event .trace part "registering instruction callback"
        [("vaddr", Text.hexWord vaddr), ("offset", Word.hexOffset token.offset),
         ("length", toString token.length.toNat)])
      return (some token, s)

/-- The tokens of the instructions of a block, in order. -/
def translateAll (source : MapsSource) :
    List (UInt64 × Nat) → Session → Job ProcessEnd (List (Option Token) × Session)
  | [], s => return ([], s)
  | (vaddr, size) :: rest, s => do
      let (token, s) ← translateOne source vaddr size s
      let (tokens, s) ← translateAll source rest s
      return (token :: tokens, s)

/-- A block is translated. -/
def onBlock (source : MapsSource) (block : List (UInt64 × Nat)) (s : Session) :
    Job ProcessEnd (List (Option Token) × Session) := do
  let first := (block.head?.map (·.1)).getD 0
  let inner := Job.inSpan (span "on_tb_trans" [("address", .text (Text.hexWord first))])
    (translateAll source block s)
  match ← Job.attempt inner with
  | .ok r => return r
  | .error .failed => endProcess "tb_trans"

/-- An instruction is executed by a processor on a thread; its token may be missing. -/
def onExecution (thread vcpu : Nat) (token : Option Token) (cache : WorkerCache) (s : Session) :
    Job ProcessEnd (WorkerCache × Session) := do
  match token with
  | none =>
      Job.log (Log.event .error interfacePart "instruction callback is missing its token"
        [("vcpu", toString vcpu)])
      endProcess "insn_exec"
  | some token =>
      let (cache, workers) ← Job.ofLogged (cache.record thread vcpu token s.workers)
      return (cache, { s with workers })

/-- Reports why a capture could not be written. -/
def reportLoss (fault : MergeFault) : Logged Unit := do
  Log.report (Log.event .error part "failed to write capture" [("error", fault.message)])
  fault.causes.forM fun cause => Log.report (Log.bareEvent .error part [("cause", cause)])

/-- Finishes a session. -/
def finishSession (s : Session) : Job ProcessEnd Session := do
  let (answer, s) ← s.finish
  match answer with
  | .ok _ => return s
  | .error fault =>
      Job.ofLogged (reportLoss fault)
      throw .failed

/-- The run ends; the state of the plugin may be missing. -/
def onEnd (present : Bool) (s : Session) : Job ProcessEnd Session := do
  if !present then
    Job.log (Log.event .error interfacePart "atexit callback is missing its plugin state" [])
    endProcess "atexit"
  match ← Job.attempt (Job.inSpan (span "on_exit" []) (finishSession s)) with
  | .ok s => return s
  | .error .failed => endProcess "atexit"

end Plugin

end ExecTruth
