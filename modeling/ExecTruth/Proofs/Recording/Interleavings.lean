import ExecTruth.Proofs.Recording.Histories

/-! # Interleavings — worker sets in use by workers that take turns in any order

    Workers ask for their sets, record instructions and put instructions into sets that
    were handed out, and now and then all sets are merged.  The books of such a use are
    kept by the requests alone (`Account`): who was handed a set, who was met, and what was
    executed up to each merge and since the last.  The sets follow the books
    (`Served.Follows`): a worker is always handed its own set, and what a merge takes out
    is what the books have since the merge before (`served_of_requests`).

    A history gives an offset its length by what each worker did in its own order, whatever
    the others did in between (`History.gives_congr`).  So how the workers took turns does
    not show in what is merged. -/

namespace ExecTruth

namespace History

variable {history history' : History} {worker : Nat} {o : Int64} {length : UInt8}

/-- What a worker first gave is told by what that worker did. -/
theorem firstLength_filter (history : History) (worker : Nat) (o : Int64) :
    firstLength (history.filter fun e => e.1 = worker) worker o
      = history.firstLength worker o := by
  induction history with
  | nil => rfl
  | cons e rest ih =>
      have hone : firstLength ([e].filter fun e => e.1 = worker) worker o
          = firstLength [e] worker o := by
        -- another worker's record counts for nothing, with the filter or without
        by_cases hworker : e.1 = worker
        · rw [List.filter_cons_of_pos (by simp [hworker])]
          rfl
        · rw [List.filter_cons_of_neg (by simp [hworker]), firstLength_singleton,
            if_neg fun hand => hworker hand.1]
          rfl
      rw [← List.singleton_append, List.filter_append, firstLength_append, firstLength_append,
        hone, ih]

/-- What a history gives is told by what each worker did, in its own order. -/
theorem gives_congr
    (heach : ∀ worker, (history.filter fun e => e.1 = worker)
      = history'.filter fun e => e.1 = worker) :
    history.Gives o length ↔ history'.Gives o length := by
  have hfirst : ∀ worker, history.firstLength worker o = history'.firstLength worker o := by
    intro worker
    rw [← firstLength_filter, heach, firstLength_filter]
  rw [Gives, Gives]
  simp only [hfirst]

end History

namespace WorkerSets

/-! ## Requests and their books -/

/-- What worker sets are asked to do. -/
inductive Request where
  /-- The set of a worker is asked for, and handed out. -/
  | register (worker : Nat)
  /-- An instruction that a worker executed is recorded. -/
  | record (worker : Nat) (i : Instruction)
  /-- An instruction is put into a set that was handed out, by the number of sets handed
      out before it. -/
  | insert (handed : Nat) (i : Instruction)
  /-- All sets are emptied into one table. -/
  | merge
  deriving DecidableEq

/-- Worker sets in use, with the sets handed out and the tables merged so far. -/
structure Served where
  sets : WorkerSets
  handed : List SetId
  merged : List InstructionTable

/-- Does what is asked.  There is nothing to put an instruction into if no set with that
    number was handed out. -/
def Served.serve (s : Served) : Request → Logged Served
  | .register worker => do
      let (id, sets) ← s.sets.setFor worker
      return { s with sets, handed := s.handed ++ [id] }
  | .record worker i => do
      return { s with sets := ← s.sets.record worker i }
  | .insert n i =>
      match s.handed[n]? with
      | some id => return { s with sets := s.sets.insert id i }
      | none => return s
  | .merge => do
      let (table, sets) ← s.sets.takeAll
      return { s with sets, merged := s.merged ++ [table] }

/-- Does what is asked, one request after the other, from no workers on. -/
def serveAll (requests : List Request) : Logged Served :=
  requests.foldlM Served.serve ⟨.empty, [], []⟩

/-- The books of requests. -/
structure Account where
  /-- The workers whose sets were handed out. -/
  owners : List Nat
  /-- The workers that were met, as often as they were. -/
  met : List Nat
  /-- What was executed before each merge, since the merge before it. -/
  periods : List History
  /-- What was executed since the last merge. -/
  since : History

/-- The books with one more request. -/
def Account.enter (a : Account) : Request → Account
  | .register worker => { a with owners := a.owners ++ [worker], met := a.met ++ [worker] }
  | .record worker i => { a with met := a.met ++ [worker], since := a.since ++ [(worker, i)] }
  | .insert n i =>
      { a with since := a.since ++ (a.owners[n]?.toList.map fun worker => (worker, i)) }
  | .merge => { a with periods := a.periods ++ [a.since], since := [] }

/-- The books of requests, from no workers on. -/
def accountOf (requests : List Request) : Account :=
  requests.foldl Account.enter ⟨[], [], [], []⟩

/-- A table has the offsets of a history, each with the length that the history gives it. -/
structure Tells (table : InstructionTable) (history : History) : Prop where
  contains_iff : ∀ o, table.contains o = true ↔ history.Has o
  find?_iff : ∀ o length, table.find? o = some length ↔ history.Gives o length

/-- How the workers took turns does not show in a table. -/
theorem Tells.eq_of_each {table table' : InstructionTable} {history history' : History}
    (h : Tells table history) (h' : Tells table' history')
    (heach : ∀ worker, (history.filter fun e => e.1 = worker)
      = history'.filter fun e => e.1 = worker) : table = table' := by
  refine SortedMap.ext_find? fun o => Option.ext fun length => ?_
  rw [h.find?_iff, h'.find?_iff, History.gives_congr heach]

/-! ## The sets follow the books -/

/-- Worker sets in use are as the books say. -/
structure Served.Follows (s : Served) (a : Account) : Prop where
  tracks : s.sets.Tracks a.since
  handed : s.sets.Owned a.owners s.handed
  met : ∀ worker, s.sets.owned.contains worker = true ↔ worker ∈ a.met
  merged : List.Forall₂ Tells s.merged a.periods

variable {s : Served} {a : Account}

theorem follows_empty : Served.Follows ⟨.empty, [], []⟩ ⟨[], [], [], []⟩ where
  tracks := tracks_empty
  handed := rfl
  met worker := by simp [empty, SortedMap.contains, SortedMap.find?_empty]
  merged := .nil

/-- **STEP**.  What is asked is done to the sets as it is entered in the books. -/
theorem Served.Follows.serve (h : s.Follows a) (request : Request) (events : List Log.Event) :
    ∃ s' events', s.serve request events = (s', events') ∧ s'.Follows (a.enter request) := by
  cases request with
  | register worker =>
      obtain ⟨id, ws, events', heq, htracks, hid, hgrows⟩ := h.tracks.setFor worker events
      refine ⟨⟨ws, s.handed ++ [id], s.merged⟩, events', ?_, htracks,
        (h.handed.grows hgrows).concat hid, fun worker' => ?_, h.merged⟩
      · rw [Served.serve, Logged.bind_of_eq heq]
        rfl
      · have hknown : (s.sets.setFor worker events).1.2.owned.contains worker' = true ↔ _ :=
          contains_owned_setFor_iff
        rw [heq, h.met] at hknown
        rw [hknown, Account.enter, List.mem_append, List.mem_singleton, or_comm, eq_comm]
  | record worker i =>
      obtain ⟨ws, events', heq, htracks, hgrows⟩ := h.tracks.record worker i events
      refine ⟨⟨ws, s.handed, s.merged⟩, events', ?_, htracks, h.handed.grows hgrows,
        fun worker' => ?_, h.merged⟩
      · rw [Served.serve, Logged.bind_of_eq heq]
        rfl
      · have hknown : (s.sets.record worker i events).1.owned.contains worker' = true ↔ _ :=
          contains_owned_setFor_iff
        rw [heq, h.met] at hknown
        rw [hknown, Account.enter, List.mem_append, List.mem_singleton, or_comm, eq_comm]
  | insert n i =>
      rw [Served.serve, Account.enter]
      -- the set that was handed out with the number is still that of its owner
      rcases h.handed.getElem? n with ⟨worker, id, hworker, hid, hfind⟩ | ⟨hnone, hid⟩
      · rw [hworker, hid]
        exact ⟨_, events, rfl, h.tracks.insert hfind i, h.handed, h.met, h.merged⟩
      · rw [hnone, hid, Option.toList_none, List.map_nil, List.append_nil]
        exact ⟨s, events, rfl, h⟩
  | merge =>
      have htells : Tells s.sets.union a.since :=
        ⟨fun o => h.tracks.contains_union_iff, fun o length => h.tracks.find?_union_iff⟩
      exact ⟨⟨s.sets.drained, s.handed, s.merged ++ [s.sets.union]⟩, _, rfl, h.tracks.drained,
        h.handed, h.met, List.rel_append h.merged (.cons htells .nil)⟩

/-- **RUN**.  The same of any requests. -/
theorem Served.Follows.serveAll (h : s.Follows a) (requests : List Request)
    (events : List Log.Event) :
    Follows (requests.foldlM Served.serve s events).1 (requests.foldl Account.enter a) := by
  induction requests generalizing s a events with
  | nil => exact h
  | cons request rest ih =>
      obtain ⟨s', events', heq, hstep⟩ := h.serve request events
      rw [List.foldlM_cons, Logged.bind_of_eq heq, List.foldl_cons]
      exact ih hstep events'

/-- Whoever was handed a set was handed its own, and no other worker was handed that. -/
theorem Served.Follows.handed_eq_iff (h : s.Follows a) {m n worker worker' : Nat}
    (hm : a.owners[m]? = some worker) (hn : a.owners[n]? = some worker') :
    s.handed[m]? = s.handed[n]? ↔ worker = worker' := by
  have hset : ∀ {n worker : Nat}, a.owners[n]? = some worker →
      ∃ id, s.handed[n]? = some id ∧ s.sets.owned.find? worker = some id := by
    intro n worker hworker
    rcases h.handed.getElem? n with ⟨worker', id, hworker', hid, hfind⟩ | ⟨hnone, -⟩
    · cases hworker.symm.trans hworker'
      exact ⟨id, hid, hfind⟩
    · exact nomatch hworker.symm.trans hnone
  obtain ⟨id, hid, hfind⟩ := hset hm
  obtain ⟨id', hid', hfind'⟩ := hset hn
  rw [hid, hid', Option.some_inj]
  constructor
  · rintro rfl
    exact h.tracks.apart hfind hfind'
  · rintro rfl
    exact Option.some.inj (hfind.symm.trans hfind')

/-- For each merge there is a table, which tells what was executed since the merge before. -/
theorem Served.Follows.exists_merged (h : s.Follows a) {n : Nat} {period : History}
    (hperiod : a.periods[n]? = some period) :
    ∃ table, s.merged[n]? = some table ∧ Tells table period := by
  obtain ⟨hn, rfl⟩ := List.getElem?_eq_some_iff.1 hperiod
  have hn' : n < s.merged.length := h.merged.length_eq ▸ hn
  exact ⟨s.merged[n], List.getElem?_eq_getElem hn', h.merged.get hn' hn⟩

/-- A merge empties the sets, and does nothing else to them. -/
theorem serveAll_append_merge (requests : List Request) (events : List Log.Event) :
    (serveAll (requests ++ [.merge]) events).1.sets
      = (serveAll requests events).1.sets.drained := by
  rw [serveAll, List.foldlM_append]
  rfl

/-- **SERVED**.  Of worker sets that are used in any way: all workers are handed their own
    sets and no other, and there are as many sets as workers were met.  Each merge gives what
    was executed since the merge before, with the length of an offset that the lowest worker
    that executed it gave it first.  It leaves the sets to their workers, all of them empty.
    And any two merges of what each worker did in the same order give the same table,
    whatever the turns that the workers took. -/
theorem served_of_requests (requests : List Request) (events : List Log.Event) :
    let s := (serveAll requests events).1
    let a := accountOf requests
    (s.handed.length = a.owners.length
      ∧ ∀ (m n worker worker' : Nat), a.owners[m]? = some worker → a.owners[n]? = some worker' →
        (s.handed[m]? = s.handed[n]? ↔ worker = worker'))
    ∧ s.sets.size = a.met.dedup.length
    ∧ (s.merged.length = a.periods.length
      ∧ ∀ (n : Nat) period, a.periods[n]? = some period →
        ∃ table, s.merged[n]? = some table ∧ Tells table period)
    ∧ ((serveAll (requests ++ [.merge]) events).1.sets.owned = s.sets.owned
      ∧ ∀ id, (serveAll (requests ++ [.merge]) events).1.sets.contents id = .empty)
    ∧ ∀ (requests' : List Request) (events' : List Log.Event) (n n' : Nat) period period',
        a.periods[n]? = some period → (accountOf requests').periods[n']? = some period' →
        (∀ worker, (period.filter fun e => e.1 = worker)
          = period'.filter fun e => e.1 = worker) →
        s.merged[n]? = (serveAll requests' events').1.merged[n']? := by
  intro s a
  have hfollows : s.Follows a := follows_empty.serveAll requests events
  refine ⟨⟨?_, fun m n worker worker' hm hn => hfollows.handed_eq_iff hm hn⟩,
    SortedMap.size_eq_length_dedup hfollows.met,
    ⟨hfollows.merged.length_eq, fun n period => hfollows.exists_merged⟩, ⟨?_, fun id => ?_⟩, ?_⟩
  · have hlength := congrArg List.length hfollows.handed
    rw [List.length_map, List.length_map] at hlength
    exact hlength.symm
  · rw [serveAll_append_merge]
    rfl
  · rw [serveAll_append_merge, contents_drained]
  · intro requests' events' n n' period period' hperiod hperiod' heach
    have hfollows' := follows_empty.serveAll requests' events'
    obtain ⟨table, htable, htells⟩ := hfollows.exists_merged hperiod
    obtain ⟨table', htable', htells'⟩ := hfollows'.exists_merged hperiod'
    -- what is merged is told by each worker's own records, however they were mixed
    rw [htells.eq_of_each htells' heach] at htable
    exact htable.trans htable'.symm

/-- Of two workers, the higher one is handed its set twice.  Both execute what is at 4, and
    which of them does so first does not show. -/
theorem served_of_requests_two_workers :
    let requests : List Request :=
      [.register 3, .insert 0 ⟨4, 9⟩, .record 1 ⟨4, 4⟩, .register 3, .insert 1 ⟨8, 2⟩, .merge]
    let requests' : List Request :=
      [.record 1 ⟨4, 4⟩, .register 3, .insert 0 ⟨4, 9⟩, .insert 0 ⟨8, 2⟩, .merge]
    (serveAll requests []).1.handed[0]? = (serveAll requests []).1.handed[1]?
      ∧ (serveAll requests []).1.sets.size = 2
      ∧ (serveAll requests []).1.merged[0]? = (serveAll requests' []).1.merged[0]? := by
  intro requests requests'
  obtain ⟨⟨-, hhanded⟩, hsize, -, -, hmerged⟩ := served_of_requests requests []
  have hperiod : (accountOf requests).periods[0]?
      = some [(3, ⟨4, 9⟩), (1, ⟨4, 4⟩), (3, ⟨8, 2⟩)] := rfl
  have hperiod' : (accountOf requests').periods[0]?
      = some [(1, ⟨4, 4⟩), (3, ⟨4, 9⟩), (3, ⟨8, 2⟩)] := rfl
  refine ⟨(hhanded 0 1 3 3 rfl rfl).2 rfl, hsize,
    hmerged requests' [] 0 0 _ _ hperiod hperiod' fun worker => ?_⟩
  by_cases hworker : worker = 1
  · subst hworker
    rfl
  · have hne : ¬ (1 : Nat) = worker := fun heq => hworker heq.symm
    simp [List.filter_cons, hne]

end WorkerSets

end ExecTruth
