import ExecTruth.Emulator.Plugin
import ExecTruth.Proofs.Files.Jobs
import ExecTruth.Proofs.Recording.Histories

/-! # Processor calls — recording through a cache is recording into each worker's own set

    Each thread of the emulator keeps the set of the processor that it ran last, and
    looks a set up only when another one runs on it.  Processors move between threads,
    and several of them share one, so the cache could go stale in two ways: a thread
    could hold on to a set that is no longer the processor's, or hand it to the wrong one.

    Neither happens.  The sets that the cache NAMES are those of the workers it names
    them for (`WorkerCache.Names`), because a worker keeps its set for good
    (`Names.grows`).  With that, a look-up through the cache gives what one without it
    gives (`Names.lookUp`), and the calls of any processors on any threads leave in
    each set what recording the executions one by one would (`held_as_recorded`). -/

namespace ExecTruth

variable {ws ws' : WorkerSets} {history : History} {cache : WorkerCache}

/-! ## What each worker's set holds -/

namespace WorkerSets

/-- What the set of a worker holds; nothing if it has none. -/
def heldBy (ws : WorkerSets) (worker : Nat) : InstructionTable :=
  match ws.owned.find? worker with
  | some id => ws.contents id
  | none => .empty

/-- A set that is held has the first length recorded in it. -/
theorem Tracks.find?_heldBy (h : ws.Tracks history) (worker : Nat) (o : Int64) :
    (ws.heldBy worker).find? o = history.firstLength worker o := by
  unfold heldBy
  cases hfind : ws.owned.find? worker with
  | some id => exact h.held hfind o
  | none =>
      show SortedMap.empty.find? o = _
      rw [SortedMap.find?_empty, h.firstLength_eq_none hfind]

/-- What the sets hold is told by the history alone. -/
theorem Tracks.heldBy_eq (h : ws.Tracks history) (h' : ws'.Tracks history) (worker : Nat) :
    ws.heldBy worker = ws'.heldBy worker :=
  SortedMap.ext_find? fun o => by rw [h.find?_heldBy, h'.find?_heldBy]

/-- One more execution shows in the set of the worker and in no other. -/
theorem Tracks.heldBy_of_execution {worker : Nat} {i : Instruction} (h : ws.Tracks history)
    (h' : ws'.Tracks (history ++ [(worker, i)])) :
    ws'.heldBy worker = (ws.heldBy worker).insertNew i.offset i.length
      ∧ ∀ other ≠ worker, ws'.heldBy other = ws.heldBy other := by
  constructor
  · refine SortedMap.ext_find? fun o => ?_
    rw [h'.find?_heldBy, History.firstLength_append, History.firstLength_singleton,
      SortedMap.find?_insertNew, h.find?_heldBy, h.find?_heldBy]
    -- at its own offset the new length counts only if there was none
    by_cases ho : i.offset = o
    · rw [if_pos ⟨rfl, ho⟩, if_pos (congrArg rank ho), ho]
      cases history.firstLength worker o <;> rfl
    · rw [if_neg fun hand => ho hand.2, if_neg fun hr => ho (Ranked.rank_inj hr), Option.or_none]
  · intro other hne
    refine SortedMap.ext_find? fun o => ?_
    rw [h'.find?_heldBy, History.firstLength_append, History.firstLength_singleton,
      if_neg fun hand => hne hand.1.symm, Option.or_none, h.find?_heldBy]

end WorkerSets

/-! ## Caches -/

namespace WorkerCache

/-- The sets that are cached are those that the workers have. -/
def Names (cache : WorkerCache) (ws : WorkerSets) : Prop :=
  ∀ thread worker id, cache.find? thread = some (worker, id) → ws.owned.find? worker = some id

/-- An empty cache names nothing wrong. -/
theorem names_empty (ws : WorkerSets) : Names .empty ws := by
  intro thread worker id h
  rw [SortedMap.find?_empty] at h
  exact nomatch h

/-- No set is taken from its worker, so none that is cached goes stale. -/
theorem Names.grows (h : cache.Names ws) (hgrows : ws.Grows ws') : cache.Names ws' := by
  intro thread worker id hfind
  exact hgrows (h thread worker id hfind)

/-- A pair that names the set its worker owns can be put in. -/
theorem Names.insert {thread worker : Nat} {id : SetId} (h : cache.Names ws)
    (hid : ws.owned.find? worker = some id) : Names (cache.insert thread (worker, id)) ws := by
  intro thread' worker' id' hfind
  rw [SortedMap.find?_insert] at hfind
  split at hfind
  · cases hfind
    exact hid
  · exact h thread' worker' id' hfind

/-- A look-up through the cache gives the set of the worker that it asks for, and the
    cache stays one that names the sets the workers have. -/
theorem Names.lookUp (h : cache.Names ws) (htracks : ws.Tracks history) (thread worker : Nat)
    (events : List Log.Event) :
    ∃ id cache' ws' events', cache.lookUp thread worker ws events = ((id, cache', ws'), events')
      ∧ ws'.owned.find? worker = some id ∧ cache'.Names ws' ∧ ws'.Tracks history
      ∧ ws.Grows ws' := by
  obtain ⟨id, ws', events', hset, htracks', hid, hgrows⟩ := htracks.setFor worker events
  have hinsert : Names (cache.insert thread (worker, id)) ws' := (h.grows hgrows).insert hid
  unfold WorkerCache.lookUp
  cases hfind : cache.find? thread with
  | none =>
      refine ⟨id, cache.insert thread (worker, id), ws', events', ?_, hid, hinsert, htracks',
        hgrows⟩
      exact Logged.bind_of_eq hset
  | some last =>
      obtain ⟨last, lastId⟩ := last
      by_cases hlast : last = worker
      · -- the thread runs the worker that it ran last
        subst hlast
        refine ⟨lastId, cache, ws, events, ?_, h thread last lastId hfind, h, htracks,
          fun hid => hid⟩
        simp only [if_pos]
        rfl
      · refine ⟨id, cache.insert thread (worker, id), ws', events', ?_, hid, hinsert, htracks',
          hgrows⟩
        simp only [if_neg hlast]
        exact Logged.bind_of_eq hset

/-- Recording through the cache is the worker's executing the instruction. -/
theorem Names.record (h : cache.Names ws) (htracks : ws.Tracks history) (thread worker : Nat)
    (i : Instruction) (events : List Log.Event) :
    ∃ cache' ws' events', cache.record thread worker i ws events = ((cache', ws'), events')
      ∧ cache'.Names ws' ∧ ws'.Tracks (history ++ [(worker, i)]) := by
  obtain ⟨id, cache', ws', events', hlookUp, hid, hnames, htracks', -⟩ :=
    h.lookUp htracks thread worker events
  refine ⟨cache', ws'.insert id i, events', ?_, hnames, htracks'.insert hid i⟩
  rw [WorkerCache.record, Logged.bind_of_eq hlookUp]
  rfl

end WorkerCache

/-! ## Calls -/

namespace Plugin

/-- A processor's start asks for its set. -/
theorem onProcessor_eq (thread vcpu : Nat) (s : Session) (host : Host) :
    ∃ events, onProcessor thread vcpu s host
      = .ok { s with workers := (s.workers.setFor vcpu []).1.2 } ⟨host.files, events⟩ :=
  ⟨_, rfl⟩

/-- An execution is recorded through the cache. -/
theorem onExecution_of_record {thread vcpu : Nat} {token : Token} {s : Session} {host : Host}
    {cache' : WorkerCache} {events : List Log.Event}
    (h : cache.record thread vcpu token s.workers host.events = ((cache', ws), events)) :
    onExecution thread vcpu (some token) cache s host
      = .ok (cache', { s with workers := ws }) ⟨host.files, events⟩ :=
  Job.bind_of_ok (Job.ofLogged_of_eq h)

/-- What the emulator tells of a processor, and on which of its threads. -/
inductive ProcessorCall where
  /-- The processor starts. -/
  | start (thread vcpu : Nat)
  /-- The processor executes the instruction with a token. -/
  | execution (thread vcpu : Nat) (token : Token)
  deriving DecidableEq

/-- What was executed by a call. -/
def ProcessorCall.executed : ProcessorCall → History
  | .start _ _ => []
  | .execution _ vcpu token => [(vcpu, token)]

/-- An installed plugin: its session, and the cache of the threads. -/
structure InUse where
  session : Session
  cache : WorkerCache

/-- Serves a call as the plugin does. -/
def InUse.serve (p : InUse) : ProcessorCall → Job ProcessEnd InUse
  | .start thread vcpu => do
      return { p with session := ← onProcessor thread vcpu p.session }
  | .execution thread vcpu token => do
      let (cache, session) ← onExecution thread vcpu (some token) p.cache p.session
      return ⟨session, cache⟩

/-- Serves calls, one after the other, from the installation on. -/
def serveAll (config : SessionConfig) (calls : List ProcessorCall) : Job ProcessEnd InUse :=
  calls.foldlM InUse.serve ⟨.start config, .empty⟩

/-- The session holds what was executed, and the cache names the sets it holds it in. -/
structure InUse.Keeps (p : InUse) (history : History) : Prop where
  tracks : p.session.workers.Tracks history
  names : p.cache.Names p.session.workers

variable {p : InUse}

/-- In the beginning no processor is cached, and every set is empty. -/
theorem keeps_start (config : SessionConfig) : InUse.Keeps ⟨.start config, .empty⟩ [] where
  tracks := WorkerSets.tracks_empty
  names := WorkerCache.names_empty _

/-- Two plugins that differ at most in what has been recorded. -/
structure InUse.SameBut (p p' : InUse) : Prop where
  config : p'.session.config = p.session.config
  addresses : p'.session.addresses = p.session.addresses

/-- **STEP**.  A call succeeds, keeps what the cache and the session keep, and leaves the
    rest of the session and all files alone. -/
theorem InUse.Keeps.serve (h : p.Keeps history) (call : ProcessorCall) (host : Host) :
    ∃ p' host', p.serve call host = .ok p' host' ∧ p'.Keeps (history ++ call.executed)
      ∧ p.SameBut p' ∧ host'.files = host.files := by
  cases call with
  | start thread vcpu =>
      obtain ⟨events, hcall⟩ := onProcessor_eq thread vcpu p.session host
      obtain ⟨id, ws, events', hset, htracks, -, hgrows⟩ := h.tracks.setFor vcpu []
      rw [hset] at hcall
      rw [ProcessorCall.executed, List.append_nil]
      refine ⟨⟨{ p.session with workers := ws }, p.cache⟩, ⟨host.files, events⟩, ?_,
        ⟨htracks, h.names.grows hgrows⟩, ⟨rfl, rfl⟩, rfl⟩
      exact Job.bind_of_ok hcall
  | execution thread vcpu token =>
      obtain ⟨cache, ws, events, hrecord, hnames, htracks⟩ :=
        h.names.record h.tracks thread vcpu token host.events
      refine ⟨⟨{ p.session with workers := ws }, cache⟩, ⟨host.files, events⟩, ?_,
        ⟨htracks, hnames⟩, ⟨rfl, rfl⟩, rfl⟩
      exact Job.bind_of_ok (onExecution_of_record hrecord)

/-- What was executed by calls, in their order. -/
def executedBy (calls : List ProcessorCall) : History := calls.flatMap ProcessorCall.executed

/-- **RUN**.  The same of any calls. -/
theorem InUse.Keeps.serveAll (h : p.Keeps history) (calls : List ProcessorCall) (host : Host) :
    ∃ p' host', calls.foldlM InUse.serve p host = .ok p' host'
      ∧ p'.Keeps (history ++ executedBy calls) := by
  -- the history that is kept grows by what each call executes
  induction calls generalizing p history host with
  | nil =>
      refine ⟨p, host, rfl, ?_⟩
      simpa [executedBy] using h
  | cons call rest ih =>
      obtain ⟨mid, hostMid, hcall, hkeeps, -, -⟩ := h.serve call host
      obtain ⟨p', host', hrest, hkeeps'⟩ := ih hkeeps hostMid
      refine ⟨p', host', ?_, ?_⟩
      · rw [List.foldlM_cons, Job.bind_of_ok hcall]
        exact hrest
      · simpa [executedBy] using hkeeps'

/-- **CACHE**.  After any calls, on any threads and of any processors, every set holds
    what recording the executions directly, in the order of the calls, puts into it.  What
    a thread has cached is the set that the session has for that processor.  So the next
    execution shows in the set of its processor, as recording it there would, and no other
    set changes, whichever processor the thread ran before. -/
theorem held_as_recorded (config : SessionConfig) (calls : List ProcessorCall) (host : Host) :
    ∃ p host', serveAll config calls host = .ok p host' ∧
      (∀ worker events, p.session.workers.heldBy worker
        = (WorkerSets.recordAll (executedBy calls) .empty events).1.heldBy worker) ∧
      (∀ thread worker id, p.cache.find? thread = some (worker, id) →
        p.session.workers.owned.find? worker = some id) ∧
      ∀ thread vcpu token host,
        ∃ p' host', p.serve (.execution thread vcpu token) host = .ok p' host' ∧
          p'.session.workers.heldBy vcpu
            = (p.session.workers.heldBy vcpu).insertNew token.offset token.length ∧
          ∀ other ≠ vcpu, p'.session.workers.heldBy other = p.session.workers.heldBy other := by
  obtain ⟨p, host', hrun, hkeeps⟩ := (keeps_start config).serveAll calls host
  rw [List.nil_append] at hkeeps
  refine ⟨p, host', hrun, fun worker events => ?_, hkeeps.names,
    fun thread vcpu token host => ?_⟩
  · exact hkeeps.tracks.heldBy_eq (WorkerSets.tracks_empty.recordAll _ events) worker
  · obtain ⟨p', host', hcall, hkeeps', -, -⟩ := hkeeps.serve (.execution thread vcpu token) host
    exact ⟨p', host', hcall, hkeeps.tracks.heldBy_of_execution hkeeps'.tracks⟩

/-- Two processors take turns on one thread, and one of them moves to another thread and back:
    the first thread switches to the second processor, uses what it has cached, and switches
    back, and each processor has its own instructions. -/
example :
    (match serveAll ⟨⟨[112]⟩, ⟨[99]⟩, none⟩ [.start 0 7, .execution 0 7 ⟨16, 3⟩,
      .execution 0 2 ⟨16, 5⟩, .execution 0 2 ⟨18, 1⟩, .execution 1 7 ⟨20, 1⟩,
      .execution 0 7 ⟨16, 9⟩] ⟨⟨[], []⟩, []⟩ with
    | .ok p _ => some (p.session.workers.heldBy 7, p.session.workers.heldBy 2, p.cache.entries)
    | .error _ _ => none)
      = some (.ofList [(16, 3), (20, 1)], .ofList [(16, 5), (18, 1)], [(0, 7, 0), (1, 7, 0)]) := by
  decide +kernel

end Plugin

end ExecTruth
