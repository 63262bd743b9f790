import ExecTruth.Emulator.Plugin

/-! # Emulator processes — a run of the plugin, event by event

    A process maps files, installs the plugin, and calls it as the guest runs.  The
    tokens of translated instructions are numbered in the order in which they are
    given out.  Before the plugin is installed its calls do nothing.  The run is over
    with its events, or with the call that ends the process. -/

namespace ExecTruth

/-- What happens to a process. -/
inductive EmulatorEvent where
  /-- A file is mapped. -/
  | map (path : Path) (address length offset : Nat)
  /-- A range of addresses is freed. -/
  | unmap (address length : Nat)
  /-- A file is removed. -/
  | unlink (path : Path)
  | install (inst : Installation)
  /-- A processor of the guest starts. -/
  | processor (vcpu : Nat)
  /-- A block of instructions, each an address and a length, is translated. -/
  | block (instructions : List (UInt64 × Nat))
  /-- The instruction with a numbered token is executed; the token may be lost. -/
  | execution (vcpu token : Nat) (present : Bool)
  /-- The guest's run ends; the state of the plugin may be lost. -/
  | finish (present : Bool)
  deriving Repr

/-- What comes of an event. -/
inductive EmulatorAnswer where
  | done
  | refused
  /-- The plugin is not called for this. -/
  | uncalled
  /-- Whether the plugin was installed. -/
  | installed (success : Bool)
  /-- The places of the instructions that were given a token. -/
  | tokens (places : List Nat)
  deriving DecidableEq, Repr

/-- A process with the plugin in it. -/
structure Emulation where
  memory : Memory
  plugin : Plugin
  /-- The tokens given out so far. -/
  tokens : List Token

namespace Emulation

/-- The thread that the events happen on. -/
def thread : Nat := 0

/-- A process in which nothing has happened. -/
def fresh : Emulation := ⟨.empty, .fresh, []⟩

/-- The process with another session. -/
def withSession (p : Emulation) (s : Session) : Emulation :=
  { p with plugin := { p.plugin with session := some s } }

/-- The description of the memory, whenever it is read. -/
def source (p : Emulation) : MapsSource := fun _ => p.memory.describe

/-- Removes a file if there is one, and marks its mappings. -/
def unlink {ε : Type} (path : Path) (p : Emulation) : Job ε Emulation := do
  let found := Walk.run .entry (← Job.files) path
  match ← Job.attempt (Job.removeFile path), found with
  | .ok (), .ok (.found location _) => return { p with memory := p.memory.markRemoved location }
  | _, _ => return p

/-- Lets an event happen that calls an installed plugin. -/
def call (s : Session) (p : Emulation) :
    EmulatorEvent → Job ProcessEnd (EmulatorAnswer × Emulation)
  | .processor vcpu => do
      let s ← Plugin.onProcessor thread vcpu s
      return (.done, p.withSession s)
  | .block instructions => do
      let (given, s) ← Plugin.onBlock p.source instructions s
      let places := given.zipIdx.filterMap fun (token, n) => token.map fun _ => n
      let p := p.withSession s
      return (.tokens places, { p with tokens := p.tokens ++ given.filterMap id })
  | .execution vcpu n present => do
      match p.tokens[n]? with
      | none => return (.uncalled, p)
      | some token =>
          let token := if present then some token else none
          let (cache, s) ← Plugin.onExecution thread vcpu token p.plugin.cache s
          return (.done, { p with plugin := ⟨some s, cache⟩ })
  | .finish present => do
      let s ← Plugin.onEnd present s
      return (.done, p.withSession s)
  | _ => return (.uncalled, p)

/-- Lets an event happen. -/
def step (filter : Log.Filter) (p : Emulation) (e : EmulatorEvent) :
    Job ProcessEnd (EmulatorAnswer × Emulation) := do
  match e with
  | .map path address length offset =>
      match p.memory.map? (← Job.files) path address length offset with
      | some memory => return (.done, { p with memory })
      | none => return (.refused, p)
  | .unmap address length => return (.done, { p with memory := p.memory.unmap address length })
  | .unlink path => return (.done, ← p.unlink path)
  | .install inst => do
      let (success, plugin) ← p.plugin.install filter inst
      return (.installed success, { p with plugin })
  | call =>
      match p.plugin.session with
      | none => return (.uncalled, p)
      | some s => p.call s call

/-- What is seen of an event: the lines it caused, and what came of it, unless the
    process ended. -/
structure Seen where
  lines : List String
  answer : Option EmulatorAnswer
  deriving DecidableEq, Repr

/-- The lines of events, which cannot hold a NUL. -/
def linesOf (filter : Log.Filter) (events : List Log.Event) : List String :=
  (Log.render filter events).map fun l => String.ofList (l.toList.filter (· ≠ '\x00'))

/-- Lets events happen up to the one that ends the process, and gives what is seen of
    each, the status that the process ends with, and the files it leaves. -/
def run (filter : Log.Filter) (files : FileTree) (p : Emulation) :
    List EmulatorEvent → List Seen × Nat × FileTree
  | [] => ([], 0, files)
  | e :: rest =>
      match p.step filter e ⟨files, []⟩ with
      | .ok (answer, p) host =>
          let (seen, status, files) := run filter host.files p rest
          (⟨linesOf filter host.events, some answer⟩ :: seen, status, files)
      | .error _ host => ([⟨linesOf filter host.events, none⟩], 1, host.files)

end Emulation

end ExecTruth
