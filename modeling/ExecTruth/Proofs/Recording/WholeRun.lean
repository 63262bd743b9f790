import ExecTruth.Proofs.Capture.Merges
import ExecTruth.Proofs.Digest
import ExecTruth.Proofs.Recording.Histories
import ExecTruth.Recording.Session

/-! # Whole runs — what a session stores of what its workers have executed

    While a run goes on, sets are asked for and kept, and instructions are recorded
    by worker or put into kept sets, in any order.  The sets then hold the history of
    the run (`Ongoing.follows_run`), whatever the order of the workers' numbers and
    however often a set was asked for.  Finishing merges what they hold into the
    stored capture, so three rules decide on the length of an offset: what is stored
    already comes before the run, a lower worker before a higher one, and what a worker
    executed first before what it executed later (`finish_whole_run`). -/

namespace ExecTruth.Session

open Job

/-! ## Steps of a run -/

/-- What is done with a session while its run goes on. -/
inductive Step where
  /-- The set of a worker is asked for, and kept. -/
  | keep (worker : Nat)
  /-- An instruction that a worker executed is recorded. -/
  | record (worker : Nat) (i : Instruction)
  /-- An instruction is put into a kept set, by the number of sets kept before it. -/
  | insert (kept : Nat) (i : Instruction)
  deriving DecidableEq

/-- A session while its run goes on, with the sets kept so far. -/
structure Ongoing where
  session : Session
  kept : List SetId

/-- The workers whose sets a step keeps. -/
def Step.keeps : Step → List Nat
  | .keep worker => [worker]
  | .record _ _ | .insert _ _ => []

/-- What a step adds to the history, if the kept sets are those of `owners`. -/
def Step.adds (owners : List Nat) : Step → History
  | .keep _ => []
  | .record worker i => [(worker, i)]
  | .insert kept i => owners[kept]?.toList.map fun worker => (worker, i)

/-- The history of steps, if the sets kept before are those of `owners`. -/
def historyOf : (owners : List Nat) → List Step → History
  | _, [] => []
  | owners, step :: rest => step.adds owners ++ historyOf (owners ++ step.keeps) rest

namespace Ongoing

/-- A run in which nothing has been done. -/
def start (config : SessionConfig) : Ongoing := ⟨.start config, []⟩

/-- Does a step.  There is nothing to put an instruction into if no set with that number
    was kept. -/
def step (r : Ongoing) : Step → Logged Ongoing
  | .keep worker => do
      let (id, session) ← r.session.setFor worker
      return ⟨session, r.kept ++ [id]⟩
  | .record worker i => do
      return { r with session := ← r.session.record worker i }
  | .insert kept i =>
      match r.kept[kept]? with
      | some id => return { r with session := r.session.insert id i }
      | none => return r

/-- Does steps one after the other. -/
def run (steps : List Step) (r : Ongoing) : Logged Ongoing := steps.foldlM step r

/-- A run has kept the sets of the owners, and its sets hold a history. -/
structure Follows (config : SessionConfig) (owners : List Nat) (history : History)
    (r : Ongoing) : Prop where
  config : r.session.config = config
  tracks : r.session.workers.Tracks history
  kept : r.session.workers.Owned owners r.kept

variable {config : SessionConfig} {owners : List Nat} {history : History} {r : Ongoing}

theorem follows_start (config : SessionConfig) : (start config).Follows config [] [] :=
  ⟨rfl, WorkerSets.tracks_empty, rfl⟩

/-- **STEP**.  A step does to the sets what it adds to the history. -/
theorem Follows.step (h : r.Follows config owners history) (s : Step)
    (events : List Log.Event) :
    ∃ r' events', r.step s events = (r', events')
      ∧ r'.Follows config (owners ++ s.keeps) (history ++ s.adds owners) := by
  cases s with
  | keep worker =>
      obtain ⟨id, ws, events', heq, htracks, hid, hgrows⟩ := h.tracks.setFor worker events
      refine ⟨⟨{ r.session with workers := ws }, r.kept ++ [id]⟩, events', ?_, h.config, ?_, ?_⟩
      · rw [Ongoing.step, setFor, bind_assoc, Logged.bind_of_eq heq]
        rfl
      · rw [Step.adds, List.append_nil]
        exact htracks
      · exact (h.kept.grows hgrows).concat hid
  | record worker i =>
      obtain ⟨ws, events', heq, htracks, hgrows⟩ := h.tracks.record worker i events
      refine ⟨⟨{ r.session with workers := ws }, r.kept⟩, events', ?_, h.config, htracks, ?_⟩
      · rw [Ongoing.step, Session.record, bind_assoc, Logged.bind_of_eq heq]
        rfl
      · rw [Step.keeps, List.append_nil]
        exact h.kept.grows hgrows
  | insert kept i =>
      rw [Step.keeps, List.append_nil, Step.adds, Ongoing.step]
      -- the set that was kept with the number is still that of its owner
      rcases h.kept.getElem? kept with ⟨worker, id, hworker, hid, hfind⟩ | ⟨hnone, hid⟩
      · rw [hworker, hid]
        exact ⟨_, events, rfl, h.config, h.tracks.insert hfind i, h.kept⟩
      · rw [hnone, hid]
        exact ⟨r, events, rfl, h.config, (List.append_nil history).symm ▸ h.tracks, h.kept⟩

/-- **RUN**.  The same of any steps. -/
theorem Follows.run (h : r.Follows config owners history) (steps : List Step)
    (events : List Log.Event) :
    Follows config (owners ++ steps.flatMap Step.keeps) (history ++ historyOf owners steps)
      (r.run steps events).1 := by
  induction steps generalizing r owners history events with
  | nil =>
      rw [historyOf, List.flatMap_nil, List.append_nil, List.append_nil]
      exact h
  | cons s rest ih =>
      obtain ⟨r', events', heq, hstep⟩ := h.step s events
      have hrun : r.run (s :: rest) events = r'.run rest events' := by
        rw [Ongoing.run, List.foldlM_cons, Logged.bind_of_eq heq]
        rfl
      rw [hrun, historyOf, List.flatMap_cons, ← List.append_assoc, ← List.append_assoc]
      exact ih hstep events'

/-- From the start of a run, its sets hold its history. -/
theorem follows_run (config : SessionConfig) (steps : List Step) (events : List Log.Event) :
    ∃ owners, Follows config owners (historyOf [] steps) ((start config).run steps events).1 :=
  ⟨_, (follows_start config).run steps events⟩

end Ongoing

/-! ## The end of a run -/

/-- Storing gives the capture that was merged, and it stands where it was saved: whatever
    becomes of the legacy capture, that is another file. -/
theorem store_of_mergeRun {config : SessionConfig} {table : InstructionTable} {h h₁ : Host}
    {merged : RichCapture} (hmerge : mergeRun config.output config.binary table h = .ok merged h₁)
    (hdevice : h.files.nodeAt? config.output ≠ some .nullDevice)
    (hlegacy : ∀ legacy ∈ config.legacy, ∀ loc, h.files.fileAt? legacy = some loc →
      h.files.fileAt? config.output ≠ some loc) :
    ∃ r h', store config table h = ofExcept r h' ∧ (∀ capture, r = .ok capture → capture = merged)
      ∧ (config.legacy = none → r = .ok merged)
      ∧ ∃ loc, h'.files.fileAt? config.output = some loc
        ∧ h'.files.find? loc = some (.file merged.encode) := by
  obtain ⟨digest, -, hbuild⟩ := mergeRun_eq_ok_iff.1 hmerge
  obtain ⟨-, hsaved⟩ := mergeBuild_ok hbuild
  obtain ⟨hsame, loc, hloc, hfile⟩ := hsaved.fileAt?_eq hdevice
  rw [store, bind_of_ok hmerge]
  cases hconfig : config.legacy with
  | none =>
      exact ⟨.ok merged, h₁, rfl, fun capture hr => (Except.ok.inj hr).symm, fun _ => rfl,
        loc, hloc, hfile⟩
  | some legacy =>
      have hother : h₁.files.fileAt? legacy ≠ h₁.files.fileAt? config.output := by
        intro heq
        rw [hloc, hsame] at heq
        exact hlegacy legacy hconfig loc heq ((hsame config.output).symm.trans hloc)
      obtain ⟨r, hr⟩ :=
        sendTo_eq legacy CaptureFault.ofIo (Legacy.emit merged.base merged.table.keys) h₁
      -- whether or not the legacy capture could be written, the output is not touched any more
      cases r with
      | ok u =>
          have hwrap := wrap_eq_ok_iff (f := MergeFault.capture).2 hr
          exact ⟨.ok merged, _, bind_of_ok hwrap, fun capture hr => (Except.ok.inj hr).symm, nofun,
            loc, sent_other hloc hfile hother⟩
      | error fault =>
          have hwrap := wrap_eq_error_iff (f := MergeFault.capture).2 ⟨fault, hr, rfl⟩
          exact ⟨.error (.capture fault), _, bind_of_error hwrap, nofun, nofun,
            loc, sent_other hloc hfile hother⟩

/-- Storing with a legacy capture sends the addresses of what was merged. -/
theorem sendTo_of_store {config : SessionConfig} {table : InstructionTable} {h h' : Host}
    {capture : RichCapture} {legacy : Path} (hstore : store config table h = .ok capture h')
    (hlegacy : config.legacy = some legacy) :
    ∃ h₁ h₂, mergeRun config.output config.binary table h = .ok capture h₁
      ∧ sendTo legacy .ofIo (Legacy.emit capture.base capture.table.keys) h₁ = .ok () h₂
      ∧ h'.files = h₂.files := by
  obtain ⟨merged, h₁, hmerge, hrest⟩ := bind_eq_ok_iff.1 hstore
  rw [hlegacy] at hrest
  obtain ⟨_, h₂, hsave, hlogs⟩ := bind_eq_ok_iff.1 hrest
  cases hlogs
  exact ⟨h₁, h₂, hmerge, wrap_eq_ok_iff.1 hsave, rfl⟩

/-- Storing what was executed is merging it, and nothing that a legacy capture does to
    another file touches the capture. -/
theorem merged_of_store {config : SessionConfig} {table : InstructionTable} {h h' : Host}
    {capture : RichCapture} (hstore : store config table h = .ok capture h')
    (hdevice : h.files.nodeAt? config.output ≠ some .nullDevice)
    (hlegacy : ∀ legacy ∈ config.legacy,
      h.files.fileAt? legacy ≠ h.files.fileAt? config.output)
    (hcount : capture.Countable) :
    (∃ digest, digestAt config.binary h.files = .ok digest
      ∧ mergedAt config.output config.binary table digest h.files = .ok capture)
    ∧ RichCapture.stored config.output h'.files = .ok capture := by
  obtain ⟨merged, h₁, hmerge, -⟩ := bind_eq_ok_iff.1 hstore
  obtain ⟨r, h₂, heq, hgives, -, loc, hloc, hfile⟩ := store_of_mergeRun hmerge hdevice
    fun legacy hmem loc hloc hout => hlegacy legacy hmem (hloc.trans hout.symm)
  rw [heq] at hstore
  cases r with
  | error e => exact nomatch hstore
  | ok given =>
      cases hstore
      obtain rfl := hgives capture rfl
      obtain ⟨digest, hdigest, hbuild⟩ := mergeRun_eq_ok_iff.1 hmerge
      obtain ⟨hmade, hsaved⟩ := mergeBuild_ok hbuild
      exact ⟨⟨digest, hdigest, hmade⟩, RichCapture.stored_of_fileAt? hloc hfile hsaved.fits hcount⟩

/-- Storing succeeds if a capture is made whose digest can be stored, and there are files
    to write it to. -/
theorem store_of_fileAt? {config : SessionConfig} {table : InstructionTable} {h : Host}
    {digest : String} {capture : RichCapture} {loc : Location}
    (hdigest : digestAt config.binary h.files = .ok digest)
    (hmade : mergedAt config.output config.binary table digest h.files = .ok capture)
    (hfits : (Text.Utf8.encode capture.digest).length ≤ RichCapture.maxDigest)
    (hloc : h.files.fileAt? config.output = some loc)
    (hlegacy : ∀ legacy ∈ config.legacy, (∃ loc', h.files.fileAt? legacy = some loc')
      ∧ (Legacy.emit capture.base capture.table.keys).outcome = .ok ()) :
    ∃ h', store config table h = .ok capture h' := by
  obtain ⟨events, hmerge⟩ := mergeBuild_of_fileAt? hloc hmade hfits
  have hrun := mergeRun_eq_ok_iff.2 ⟨digest, hdigest, hmerge⟩
  rw [store, bind_of_ok hrun]
  cases hconfig : config.legacy with
  | none => exact ⟨_, rfl⟩
  | some legacy =>
      obtain ⟨⟨loc', hloc'⟩, hout⟩ := hlegacy legacy hconfig
      have hsame := ((FileTree.hasRoom_of_fileAt? hloc).agreeBut_put capture.encode).fileAt?_eq
      have hsave : Legacy.save legacy capture.table.keys capture.base _ = _ :=
        sendTo_of_fileAt? (h := ⟨h.files.put loc (.file capture.encode), events⟩)
          ((hsame legacy).trans hloc')
      rw [hout] at hsave
      exact ⟨_, bind_of_ok (wrap_eq_ok_iff.2 hsave)⟩

/-- Finishing tries to store what the sets hold, and empties them whatever comes of it. -/
theorem attempt_of_finish {ε : Type} {s s' : Session} {answer : Except MergeFault RichCapture}
    {h h' : Host} (hfinish : (s.finish : Job ε _) h = .ok (answer, s') h') :
    (∃ events, (attempt (store s.config s.workers.union) : Job ε _) { h with events := events }
      = .ok answer h') ∧ s' = { s with workers := s.workers.drained } := by
  obtain ⟨taken, h₁, htake, hrest⟩ := bind_eq_ok_iff.1 hfinish
  obtain ⟨answer, h₂, hattempt, hend⟩ := bind_eq_ok_iff.1 hrest
  cases htake
  cases hend
  exact ⟨⟨_, hattempt⟩, rfl⟩

/-- Finishing stores what the sets hold, and empties them. -/
theorem store_of_finish {ε : Type} {s s' : Session} {capture : RichCapture} {h h' : Host}
    (hfinish : (s.finish : Job ε _) h = .ok (.ok capture, s') h') :
    (∃ events, store s.config s.workers.union { h with events := events } = .ok capture h')
    ∧ s' = { s with workers := s.workers.drained } := by
  obtain ⟨⟨events, hattempt⟩, rfl⟩ := attempt_of_finish hfinish
  refine ⟨⟨events, ?_⟩, rfl⟩
  unfold attempt at hattempt
  split at hattempt
  · next heq => cases hattempt; exact heq
  · exact nomatch hattempt

/-- What trying to store gives, finishing gives. -/
theorem finish_of_attempt {ε : Type} (s : Session) (h : Host) : ∃ events, ∀ {answer h'},
    (attempt (store s.config s.workers.union) : Job ε _) { h with events := events } = .ok answer h'
      → (s.finish : Job ε _) h = .ok (answer, { s with workers := s.workers.drained }) h' := by
  obtain ⟨taken, htake⟩ : ∃ taken, s.workers.takeAll h.events
      = ((s.workers.union, s.workers.drained), taken) := ⟨_, rfl⟩
  have htaken : (ofLogged s.workers.takeAll : Job ε _) h
      = .ok (s.workers.union, s.workers.drained) { h with events := taken } := by
    rw [ofLogged, htake]
  refine ⟨taken, fun hattempt => ?_⟩
  rw [finish, bind_of_ok htaken]
  exact bind_of_ok hattempt

/-- Finishing succeeds if storing does. -/
theorem finish_of_store {ε : Type} {s : Session} {capture : RichCapture} {files : FileTree}
    (hstore : ∀ events, ∃ h', store s.config s.workers.union ⟨files, events⟩ = .ok capture h')
    (events : List Log.Event) :
    ∃ h', (s.finish : Job ε _) ⟨files, events⟩
      = .ok (.ok capture, { s with workers := s.workers.drained }) h' := by
  obtain ⟨taken, hfinish⟩ := finish_of_attempt s ⟨files, events⟩
  obtain ⟨h', hok⟩ := hstore taken
  exact ⟨h', hfinish (attempt_of_ok hok)⟩

/-- Finishing on top of a stored capture of the same build succeeds, if a legacy capture has
    a file to go to and its addresses fit. -/
theorem finish_of_stored {ε : Type} {s : Session} {config : SessionConfig} {files : FileTree}
    {bytes : List UInt8} {prior : RichCapture} {loc : Location} (hconfig : s.config = config)
    (hbinary : contentsAt config.binary files = .ok bytes)
    (hloc : files.fileAt? config.output = some loc)
    (hstored : RichCapture.stored config.output files = .ok prior)
    (hsame : prior.digest = Digest.ofBytes bytes)
    (hlegacy : ∀ legacy ∈ config.legacy, (∃ loc', files.fileAt? legacy = some loc')
      ∧ (Legacy.emit prior.base (prior.table.overriding s.workers.union).keys).outcome = .ok ())
    (events : List Log.Event) :
    ∃ h', (s.finish : Job ε _) ⟨files, events⟩
      = .ok (.ok ⟨Digest.ofBytes bytes, prior.base, prior.table.overriding s.workers.union⟩,
          { s with workers := s.workers.drained }) h' := by
  have hdigest : digestAt config.binary files = .ok (Digest.ofBytes bytes) :=
    digestAt_eq_ok_iff.2 ⟨bytes, hbinary, rfl⟩
  have hmade : mergedAt config.output config.binary s.workers.union (Digest.ofBytes bytes) files
      = .ok ⟨Digest.ofBytes bytes, prior.base, prior.table.overriding s.workers.union⟩ := by
    rw [mergedAt, RichCapture.ofBuild?_of_stored hstored, if_pos hsame]
  refine finish_of_store (fun events => ?_) events
  rw [hconfig]
  exact store_of_fileAt? hdigest hmade (Digest.fits_ofBytes bytes) hloc hlegacy

/-- **WHOLE RUN**.  When a run ends without a fault, the capture that it gives and stores
    has the offsets of its history and of the capture of the same build that was stored
    before.  The length of an offset is the one stored before, or else the one that the
    history gives.  All sets, kept ones too, are empty then.  The output must not be the
    null device, where nothing is stored, nor the file of the legacy capture, and the number
    of instructions must have room in eight bytes. -/
theorem finish_whole_run {ε : Type} (config : SessionConfig) (steps : List Step)
    (events : List Log.Event) {h h' : Host} {capture : RichCapture} {s' : Session}
    (hfinish : ((Ongoing.start config).run steps events).1.session.finish h
      = (.ok (.ok capture, s') h' : EStateM.Result ε _ _))
    (hdevice : h.files.nodeAt? config.output ≠ some .nullDevice)
    (hlegacy : ∀ legacy ∈ config.legacy,
      h.files.fileAt? legacy ≠ h.files.fileAt? config.output)
    (hcount : capture.Countable) :
    ∃ digest, Digest.ofFile config.binary h = .ok digest h ∧ capture.digest = digest
      ∧ (∀ o, capture.table.contains o = true
          ↔ (∃ prior, RichCapture.ofBuild? h.files config.output digest = some prior
              ∧ prior.table.contains o = true) ∨ (historyOf [] steps).Has o)
      ∧ (∀ o length, capture.table.find? o = some length
          ↔ match (RichCapture.ofBuild? h.files config.output digest).bind (·.table.find? o) with
            | some stored => length = stored
            | none => (historyOf [] steps).Gives o length)
      ∧ RichCapture.load config.output h' = .ok capture h'
      ∧ ∀ id, s'.workers.contents id = .empty := by
  obtain ⟨owners, follows⟩ := Ongoing.follows_run config steps events
  obtain ⟨⟨_, hstore⟩, rfl⟩ := store_of_finish hfinish
  rw [follows.config] at hstore
  obtain ⟨⟨digest, hdigest, hmade⟩, hstored⟩ := merged_of_store hstore hdevice hlegacy hcount
  have hfind := find?_of_mergedAt hmade
  refine ⟨digest, (answers_ofFile _).eq_ok_iff.2 ⟨hdigest, rfl⟩, digest_of_mergedAt hmade,
    fun o => ?_, fun o length => ?_, (RichCapture.answers_load _).eq_ok_iff.2 ⟨hstored, rfl⟩,
    WorkerSets.contents_drained _⟩
  · -- an offset is of the earlier capture or of the sets, and these hold the history
    rw [← follows.tracks.contains_union_iff, SortedMap.contains, hfind, Option.isSome_or,
      Bool.or_eq_true]
    refine or_congr_left ?_
    cases RichCapture.ofBuild? h.files config.output digest <;> simp [SortedMap.contains]
  · rw [hfind]
    split
    · next stored heq => rw [heq, Option.some_or, Option.some_inj, eq_comm]
    · next heq => rw [heq, Option.none_or, follows.tracks.find?_union_iff]

/-! ## A binary with a capture of it -/

/-- A binary `p` of one byte, with a capture in `c`. -/
def filesWithCapture (c : RichCapture) : FileTree :=
  ⟨[([[99]], .file c.encode), ([[112]], .file [1])], []⟩

theorem fileAt?_filesWithCapture (c : RichCapture) :
    (filesWithCapture c).fileAt? ⟨[99]⟩ = some [[99]] :=
  FileTree.fileAt?_name rfl rfl rfl (by decide) (Or.inr ⟨_, rfl⟩)

/-- Sessions that trace the binary finish on top of its capture. -/
theorem finish_of_filesWithCapture {ε : Type} {s : Session} {c : RichCapture}
    {legacy : Option Path} (hconfig : s.config = ⟨⟨[112]⟩, ⟨[99]⟩, legacy⟩)
    (hsame : c.digest = Digest.ofBytes [1]) (hcount : c.Countable)
    (hlegacy : ∀ p ∈ legacy, (∃ loc, (filesWithCapture c).fileAt? p = some loc)
      ∧ (Legacy.emit c.base (c.table.overriding s.workers.union).keys).outcome = .ok ())
    (events : List Log.Event) :
    ∃ h', (s.finish : Job ε _) ⟨filesWithCapture c, events⟩
      = .ok (.ok ⟨Digest.ofBytes [1], c.base, c.table.overriding s.workers.union⟩,
          { s with workers := s.workers.drained }) h' := by
  have hprogram : (filesWithCapture c).fileAt? ⟨[112]⟩ = some [[112]] :=
    FileTree.fileAt?_name rfl rfl rfl (by decide) (Or.inr ⟨_, rfl⟩)
  have hbinary : contentsAt ⟨[112]⟩ (filesWithCapture c) = .ok [1] := by
    rw [contentsAt, sourceAt, FileTree.locate_of_fileAt? hprogram rfl]
    rfl
  have houtput := fileAt?_filesWithCapture c
  have hstored : RichCapture.stored ⟨[99]⟩ (filesWithCapture c) = .ok c :=
    RichCapture.stored_of_fileAt? houtput rfl (hsame ▸ Digest.fits_ofBytes [1]) hcount
  exact finish_of_stored hconfig hbinary houtput hstored hsame hlegacy events

/-! ## A run of two workers -/

/-- A binary `p` of one byte, with a capture of it in `c`. -/
private def filesBefore : FileTree :=
  ⟨[([[99]], .file (RichCapture.encode ⟨Digest.ofBytes [1], 7, .ofListFirst [(0, 2)]⟩)),
    ([[112]], .file [1])], []⟩

/-- The session that traces it and writes a legacy capture to `l` as well. -/
private def configBefore : SessionConfig := ⟨⟨[112]⟩, ⟨[99]⟩, some ⟨[108]⟩⟩

private theorem fits_digest : (Text.Utf8.encode (Digest.ofBytes [1])).length
    ≤ RichCapture.maxDigest := Digest.fits_ofBytes [1]

/-- Of two workers, the higher one is met first and has its set kept.  Both execute what is
    at 4, and what is at 0 was executed in an earlier run. -/
theorem finish_whole_run_two_workers :
    let steps : List Step := [.keep 3, .insert 0 ⟨4, 9⟩, .record 1 ⟨4, 4⟩, .insert 0 ⟨0, 5⟩,
      .record 3 ⟨8, 6⟩, .insert 0 ⟨8, 1⟩]
    let capture : RichCapture :=
      ⟨Digest.ofBytes [1], 7, .ofListFirst [(0, 2), (4, 4), (8, 6)]⟩
    ∃ s' h', ((Ongoing.start configBefore).run steps []).1.session.finish ⟨filesBefore, []⟩
        = (.ok (.ok capture, s') h' : EStateM.Result Empty _ _)
      ∧ RichCapture.load ⟨[99]⟩ h' = .ok capture h'
      ∧ ∀ id, s'.workers.contents id = .empty := by
  intro steps capture
  have houtput : filesBefore.fileAt? ⟨[99]⟩ = some [[99]] :=
    FileTree.fileAt?_name rfl rfl rfl (by decide) (Or.inr ⟨_, rfl⟩)
  have hbinary : filesBefore.fileAt? ⟨[112]⟩ = some [[112]] :=
    FileTree.fileAt?_name rfl rfl rfl (by decide) (Or.inr ⟨_, rfl⟩)
  have hlegacy : filesBefore.fileAt? ⟨[108]⟩ = some [[108]] :=
    FileTree.fileAt?_name rfl rfl rfl (by decide) (Or.inl rfl)
  have hdigest : digestAt ⟨[112]⟩ filesBefore = .ok (Digest.ofBytes [1]) := by
    rw [digestAt, contentsAt, sourceAt, FileTree.locate_of_fileAt? hbinary rfl]
    rfl
  have hmade : mergedAt ⟨[99]⟩ ⟨[112]⟩ (.ofListFirst [(0, 5), (4, 4), (8, 6)])
      (Digest.ofBytes [1]) filesBefore = .ok capture := by
    have hstored := RichCapture.stored_of_fileAt? houtput (c := ⟨_, 7, .ofListFirst [(0, 2)]⟩)
      rfl fits_digest (by decide)
    rw [mergedAt, RichCapture.ofBuild?_of_stored hstored, if_pos rfl]
    rfl
  obtain ⟨owners, follows⟩ := Ongoing.follows_run configBefore steps []
  have hunion : ((Ongoing.start configBefore).run steps []).1.session.workers.union
      = .ofListFirst [(0, 5), (4, 4), (8, 6)] := by decide
  have hstore : ∀ events, ∃ h', store ((Ongoing.start configBefore).run steps []).1.session.config
      ((Ongoing.start configBefore).run steps []).1.session.workers.union
      ⟨filesBefore, events⟩ = .ok capture h' := by
    intro events
    rw [follows.config, hunion]
    refine store_of_fileAt? hdigest hmade fits_digest houtput fun legacy hmem => ?_
    obtain rfl := Option.some.inj hmem
    exact ⟨⟨_, hlegacy⟩, by decide⟩
  obtain ⟨h', hfinish⟩ := finish_of_store (ε := Empty) hstore []
  refine ⟨_, h', hfinish, ?_⟩
  have hdevice : filesBefore.nodeAt? ⟨[99]⟩ ≠ some .nullDevice := by
    rw [FileTree.nodeAt?_of_fileAt? houtput rfl]
    simp
  have hother : ∀ legacy ∈ configBefore.legacy,
      filesBefore.fileAt? legacy ≠ filesBefore.fileAt? configBefore.output := by
    intro legacy hmem
    obtain rfl := Option.some.inj hmem
    rw [hlegacy, show filesBefore.fileAt? configBefore.output = _ from houtput]
    decide
  obtain ⟨-, -, -, -, -, hload, hempty⟩ :=
    finish_whole_run configBefore steps [] hfinish hdevice hother (by decide)
  exact ⟨hload, hempty⟩

end ExecTruth.Session
