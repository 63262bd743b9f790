import ExecTruth.Proofs.SortedMap
import ExecTruth.Recording.WorkerSets
import Mathlib.Data.Nat.Find

/-! # Histories — what worker sets hold of what the workers have executed

    The history of a run is what its workers have executed, in order.  The sets hold
    of it what they have to: the set of each worker, which no other worker has, gives
    each offset the length that the worker gave it first (`Tracks`).  Asking for a set
    and putting an instruction into one keep that up, and so does emptying all sets,
    with an empty history; and whoever was given a set keeps it (`Owned`).  From this
    follows what the sets hold together: the offsets of the history, each with the length
    that it first had from the lowest worker (`find?_union_iff`). -/

namespace ExecTruth

/-- What workers have executed, earliest first. -/
abbrev History := List (Nat × Instruction)

namespace History

/-- The length that a worker first gave to an offset. -/
def firstLength (history : History) (worker : Nat) (o : Int64) : Option UInt8 :=
  history.findSome? fun e => if e.1 = worker ∧ e.2.offset = o then some e.2.length else none

/-- The offset has this length from the lowest worker that executed it, and had it from
    that worker first. -/
def Gives (history : History) (o : Int64) (length : UInt8) : Prop :=
  ∃ worker, history.firstLength worker o = some length
    ∧ ∀ lower < worker, history.firstLength lower o = none

/-- Some worker has executed an instruction at the offset. -/
def Has (history : History) (o : Int64) : Prop := ∃ e ∈ history, e.2.offset = o

/-- The first length of an offset is the earlier one, if there is any. -/
theorem firstLength_append (history later : History) (worker : Nat) (o : Int64) :
    (history ++ later).firstLength worker o
      = (history.firstLength worker o).or (later.firstLength worker o) :=
  List.findSome?_append

theorem firstLength_singleton (worker : Nat) (i : Instruction) (worker' : Nat) (o : Int64) :
    firstLength [(worker, i)] worker' o
      = if worker = worker' ∧ i.offset = o then some i.length else none :=
  List.findSome?_singleton ..

/-- A worker gave a length to what it executed. -/
theorem isSome_firstLength_iff {history : History} {worker : Nat} {o : Int64} :
    (history.firstLength worker o).isSome = true
      ↔ ∃ e ∈ history, e.1 = worker ∧ e.2.offset = o := by
  rw [firstLength, List.isSome_findSome?, List.any_eq_true]
  refine exists_congr fun e => and_congr_right fun _ => ?_
  split <;> simp_all

/-- What was executed has a length. -/
theorem exists_gives_iff {history : History} {o : Int64} :
    (∃ length, history.Gives o length) ↔ history.Has o := by
  constructor
  · rintro ⟨length, worker, hlength, -⟩
    obtain ⟨e, he, -, ho⟩ := isSome_firstLength_iff.1 (Option.isSome_iff_exists.2 ⟨_, hlength⟩)
    exact ⟨e, he, ho⟩
  · rintro ⟨e, he, ho⟩
    -- of the workers that executed it, the lowest
    have hsome : ∃ worker, (history.firstLength worker o).isSome = true :=
      ⟨e.1, isSome_firstLength_iff.2 ⟨e, he, rfl, ho⟩⟩
    obtain ⟨length, hlength⟩ := Option.isSome_iff_exists.1 (Nat.find_spec hsome)
    exact ⟨length, Nat.find hsome, hlength, fun lower hlt =>
      Option.not_isSome_iff_eq_none.1 (Nat.find_min hsome hlt)⟩

end History

namespace WorkerSets

variable {ws ws' : WorkerSets} {history : History} {worker : Nat} {id : SetId} {o : Int64}

/-! ## What every step keeps up -/

/-- The worker sets hold what a history says. -/
structure Tracks (ws : WorkerSets) (history : History) : Prop where
  /-- Who has executed something has a set. -/
  known : ∀ e ∈ history, ∃ id, ws.owned.find? e.1 = some id
  /-- The set of a worker has been made. -/
  made : ∀ {worker id}, ws.owned.find? worker = some id → id < ws.sets.length
  /-- No two workers have the same set. -/
  apart : ∀ {worker worker' id}, ws.owned.find? worker = some id →
    ws.owned.find? worker' = some id → worker = worker'
  held : ∀ {worker id}, ws.owned.find? worker = some id → ∀ o,
    (ws.contents id).find? o = history.firstLength worker o

/-- Who has a set keeps it. -/
def Grows (ws ws' : WorkerSets) : Prop :=
  ∀ {worker id}, ws.owned.find? worker = some id → ws'.owned.find? worker = some id

/-- The sets are those of the workers, one by one. -/
def Owned (ws : WorkerSets) (owners : List Nat) (ids : List SetId) : Prop :=
  owners.map ws.owned.find? = ids.map some

section Owned

variable {owners : List Nat} {ids : List SetId}

/-- Workers keep their sets when others get theirs. -/
theorem Owned.grows (howned : ws.Owned owners ids) (hgrows : ws.Grows ws') :
    ws'.Owned owners ids := by
  refine Eq.trans (List.map_congr_left fun worker hworker => ?_) howned
  obtain ⟨id, -, hid⟩ := List.mem_map.1 (howned ▸ List.mem_map_of_mem hworker)
  rw [← hid]
  exact hgrows hid.symm

/-- A new worker comes behind those that have sets, with the next set. -/
theorem Owned.concat (howned : ws.Owned owners ids) (hid : ws.owned.find? worker = some id) :
    ws.Owned (owners ++ [worker]) (ids ++ [id]) := by
  rw [Owned, List.map_append, List.map_append, howned]
  exact congrArg (ids.map some ++ [·]) hid

/-- With each number, there is a worker with its set, or neither. -/
theorem Owned.getElem? (howned : ws.Owned owners ids) (n : Nat) :
    (∃ worker id, owners[n]? = some worker ∧ ids[n]? = some id
      ∧ ws.owned.find? worker = some id) ∨ owners[n]? = none ∧ ids[n]? = none := by
  have hset : owners[n]?.map ws.owned.find? = ids[n]?.map some := by
    rw [← List.getElem?_map, ← List.getElem?_map, howned]
  cases hid : ids[n]? with
  | some id =>
      rw [hid] at hset
      obtain ⟨worker, hworker, hfind⟩ := Option.map_eq_some_iff.1 hset
      exact Or.inl ⟨worker, id, hworker, rfl, hfind⟩
  | none =>
      rw [hid, Option.map_none, Option.map_eq_none_iff] at hset
      exact Or.inr ⟨hset, rfl⟩

end Owned

theorem tracks_empty : empty.Tracks [] where
  known := nofun
  made h := nomatch h
  apart h := nomatch h
  held h := nomatch h

theorem contents_eq (ws : WorkerSets) (id : SetId) : ws.contents id = ws.sets[id]?.getD .empty :=
  List.getD_eq_getElem?_getD

/-- A set that is not there yet is empty, and so is one that was just made. -/
theorem contents_append_empty (ws : WorkerSets) (owned : SortedMap Nat SetId) (id : SetId) :
    contents ⟨ws.sets ++ [.empty], owned⟩ id = ws.contents id := by
  rw [contents_eq, contents_eq, List.getElem?_append]
  split
  · rfl
  · next h =>
      rw [List.getElem?_eq_none (Nat.le_of_not_lt h)]
      cases id - ws.sets.length <;> rfl

/-- Making a set for a worker that has none takes no set away. -/
theorem grows_register (hnone : ws.owned.find? worker = none) :
    ws.Grows ⟨ws.sets ++ [.empty], ws.owned.insert worker ws.sets.length⟩ := by
  intro worker' id hid
  rw [SortedMap.find?_insert, if_neg, hid]
  intro heq
  rw [Ranked.rank_inj heq, hid] at hnone
  exact nomatch hnone

/-- A worker without a set has executed nothing. -/
theorem Tracks.firstLength_eq_none (h : ws.Tracks history)
    (hnone : ws.owned.find? worker = none) : history.firstLength worker o = none := by
  rw [← Option.not_isSome_iff_eq_none, History.isSome_firstLength_iff]
  rintro ⟨e, he, rfl, -⟩
  obtain ⟨id, hid⟩ := h.known e he
  exact nomatch hnone.symm.trans hid

/-- Making a set for a worker that has none adds no instruction. -/
theorem Tracks.register (h : ws.Tracks history) (hnone : ws.owned.find? worker = none) :
    Tracks ⟨ws.sets ++ [.empty], ws.owned.insert worker ws.sets.length⟩ history := by
  have hfind : ∀ {worker' id}, (ws.owned.insert worker ws.sets.length).find? worker' = some id →
      worker = worker' ∧ id = ws.sets.length ∨ ws.owned.find? worker' = some id := by
    intro worker' id hid
    rw [SortedMap.find?_insert] at hid
    split at hid
    · next heq => exact Or.inl ⟨Ranked.rank_inj heq, (Option.some.inj hid).symm⟩
    · exact Or.inr hid
  constructor
  case known =>
    intro e he
    obtain ⟨id, hid⟩ := h.known e he
    exact ⟨id, grows_register hnone hid⟩
  case made =>
    intro worker' id hid
    rw [List.length_append, List.length_singleton]
    rcases hfind hid with ⟨-, rfl⟩ | hid
    · exact Nat.lt_succ_self _
    · exact Nat.lt_succ_of_lt (h.made hid)
  case apart =>
    intro worker₁ worker₂ id h₁ h₂
    -- a set that was made before is not the new one
    rcases hfind h₁ with ⟨rfl, rfl⟩ | h₁ <;> rcases hfind h₂ with ⟨rfl, hid⟩ | h₂
    · rfl
    · exact absurd (h.made h₂) (Nat.lt_irrefl _)
    · exact absurd (h.made h₁) (hid ▸ Nat.lt_irrefl _)
    · exact h.apart h₁ h₂
  case held =>
    intro worker' id hid o
    rw [contents_append_empty]
    rcases hfind hid with ⟨rfl, rfl⟩ | hid
    · rw [h.firstLength_eq_none hnone, contents_eq, List.getElem?_eq_none (Nat.le_refl _)]
      rfl
    · exact h.held hid o

/-- Asking for the set of a worker gives it, and adds no instruction. -/
theorem Tracks.setFor (h : ws.Tracks history) (worker : Nat) (events : List Log.Event) :
    ∃ id ws' events', ws.setFor worker events = ((id, ws'), events')
      ∧ ws'.Tracks history ∧ ws'.owned.find? worker = some id ∧ ws.Grows ws' := by
  rw [WorkerSets.setFor]
  cases hfind : ws.owned.find? worker with
  | some id => exact ⟨id, ws, events, rfl, h, hfind, fun hid => hid⟩
  | none =>
      refine ⟨_, _, _, rfl, h.register hfind, ?_, grows_register hfind⟩
      rw [SortedMap.find?_insert, if_pos rfl]

/-- Asking for the set of a worker makes it known, and no other worker. -/
theorem contains_owned_setFor_iff {worker' : Nat} {events : List Log.Event} :
    (ws.setFor worker events).1.2.owned.contains worker' = true
      ↔ worker = worker' ∨ ws.owned.contains worker' = true := by
  rw [WorkerSets.setFor]
  cases hfind : ws.owned.find? worker with
  | some id =>
      have hcontains : ws.owned.contains worker = true := by
        rw [SortedMap.contains, hfind]
        rfl
      exact (or_iff_right_of_imp fun heq => heq ▸ hcontains).symm
  | none => exact SortedMap.contains_insert_iff

/-- What putting an instruction into a set that was made changes. -/
theorem contents_insert (hmade : id < ws.sets.length) (i : Instruction) (id' : SetId) :
    (ws.insert id i).contents id'
      = if id = id' then (ws.contents id).insertNew i.offset i.length else ws.contents id' := by
  rw [contents_eq, contents_eq, contents_eq, insert, List.getElem?_modify]
  by_cases heq : id = id'
  · rw [if_pos heq, ← heq, List.getElem?_eq_getElem hmade]
    simp
  · rw [if_neg heq]
    simp [heq]

/-- Putting an instruction into the set of a worker is that worker's executing it. -/
theorem Tracks.insert (h : ws.Tracks history) (hid : ws.owned.find? worker = some id)
    (i : Instruction) : (ws.insert id i).Tracks (history ++ [(worker, i)]) := by
  constructor
  case known =>
    intro e he
    rcases List.mem_append.1 he with he | he
    · exact h.known e he
    · exact ⟨id, List.mem_singleton.1 he ▸ hid⟩
  case made =>
    intro worker' id' hid'
    rw [WorkerSets.insert, List.length_modify]
    exact h.made hid'
  case apart => exact h.apart
  case held =>
    intro worker' id' hid' o
    have hheld := h.held hid' o
    rw [contents_insert (h.made hid), History.firstLength_append, History.firstLength_singleton,
      ← hheld]
    by_cases heq : id = id'
    · -- the set is that of this worker alone
      subst heq
      obtain rfl := h.apart hid hid'
      rw [if_pos rfl, SortedMap.find?_insertNew]
      by_cases ho : i.offset = o
      · rw [if_pos (congrArg rank ho), if_pos ⟨rfl, ho⟩, ho]
        cases (ws.contents id).find? o <;> rfl
      · rw [if_neg fun hr => ho (Ranked.rank_inj hr), if_neg fun hand => ho hand.2, Option.or_none]
    · have hne : worker ≠ worker' := by
        rintro rfl
        exact heq (Option.some.inj (hid.symm.trans hid'))
      rw [if_neg heq, if_neg fun hand => hne hand.1, Option.or_none]

/-- Recording is asking for the worker's set and putting the instruction there. -/
theorem Tracks.record (h : ws.Tracks history) (worker : Nat) (i : Instruction)
    (events : List Log.Event) :
    ∃ ws' events', ws.record worker i events = (ws', events')
      ∧ ws'.Tracks (history ++ [(worker, i)]) ∧ ws.Grows ws' := by
  obtain ⟨id, ws', events', heq, htracks, hid, hgrows⟩ := h.setFor worker events
  refine ⟨ws'.insert id i, events', ?_, htracks.insert hid i, hgrows⟩
  rw [WorkerSets.record, Logged.bind_of_eq heq]
  rfl

/-- Records what workers executed, one after the other. -/
def recordAll (history : History) (ws : WorkerSets) : Logged WorkerSets :=
  history.foldlM (fun ws e => ws.record e.1 e.2) ws

/-- Recording on goes on with the history. -/
theorem Tracks.recordAll (h : ws.Tracks history) (later : History) (events : List Log.Event) :
    (ws.recordAll later events).1.Tracks (history ++ later) := by
  -- the history that is followed grows by each record
  induction later generalizing ws history events with
  | nil =>
      rw [List.append_nil]
      exact h
  | cons e rest ih =>
      obtain ⟨ws', events', heq, hstep, -⟩ := h.record e.1 e.2 events
      show ((ws.record e.1 e.2 >>= WorkerSets.recordAll rest) events).1.Tracks _
      rw [Logged.bind_of_eq heq]
      simpa using ih hstep events'

/-! ## Taking everything out -/

/-- Every set is empty when it has been drained. -/
theorem contents_drained (ws : WorkerSets) (id : SetId) : ws.drained.contents id = .empty := by
  rw [contents_eq, drained, List.getElem?_map]
  cases ws.sets[id]? <;> rfl

/-- Emptied sets hold what a run that begins anew says. -/
theorem Tracks.drained (h : ws.Tracks history) : ws.drained.Tracks [] where
  known := nofun
  made hid := by rw [WorkerSets.drained, List.length_map]; exact h.made hid
  apart := h.apart
  held hid o := by rw [contents_drained]; rfl

/-- The sets together give an offset the length that the history gives it. -/
theorem Tracks.find?_union_iff (h : ws.Tracks history) {length : UInt8} :
    ws.union.find? o = some length ↔ history.Gives o length := by
  have hheld : ∀ e ∈ ws.owned.entries,
      (ws.contents e.2).find? o = history.firstLength e.1 o :=
    fun e he => h.held (SortedMap.find?_eq_some_iff.2 he) o
  rw [union, SortedMap.find?_extendAll, SortedMap.find?_empty, Option.none_or,
    SortedMap.findSome?_entries_eq_some_iff]
  constructor
  · rintro ⟨e, he, hlength, hnone⟩
    refine ⟨e.1, (hheld e he).symm.trans hlength, fun lower hlt => ?_⟩
    -- had the lower worker executed it, its set would have been asked first
    rw [← Option.not_isSome_iff_eq_none, History.isSome_firstLength_iff]
    rintro ⟨entry, hentry, rfl, ho⟩
    obtain ⟨id, hid⟩ := h.known entry hentry
    have hlower := SortedMap.find?_eq_some_iff.1 hid
    have hempty := (hheld _ hlower).symm.trans (hnone _ hlower (Int.ofNat_lt.2 hlt))
    exact Option.not_isSome_iff_eq_none.2 hempty
      (History.isSome_firstLength_iff.2 ⟨entry, hentry, rfl, ho⟩)
  · rintro ⟨worker, hlength, hnone⟩
    obtain ⟨entry, hentry, rfl, -⟩ := History.isSome_firstLength_iff.1
      (Option.isSome_iff_exists.2 ⟨length, hlength⟩)
    obtain ⟨id, hid⟩ := h.known entry hentry
    have he := SortedMap.find?_eq_some_iff.1 hid
    -- the sets before that one are those of lower workers
    refine ⟨_, he, (hheld _ he).trans hlength, fun e' he' hlt => ?_⟩
    exact (hheld e' he').trans (hnone e'.1 (Int.ofNat_lt.1 hlt))

/-- The sets together have the offsets that the history has. -/
theorem Tracks.contains_union_iff (h : ws.Tracks history) :
    ws.union.contains o = true ↔ history.Has o := by
  rw [SortedMap.contains, Option.isSome_iff_exists]
  simp only [h.find?_union_iff]
  exact History.exists_gives_iff

end WorkerSets

end ExecTruth
