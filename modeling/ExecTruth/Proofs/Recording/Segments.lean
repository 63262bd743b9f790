import ExecTruth.Proofs.Recording.Finishes

/-! # Segments — a run that is finished in parts and one that is finished once

    What workers execute may be recorded in segments, each of which ends with a finish, in
    one session or in a new one.  A finish joins what it takes out to the capture that is
    there, and joining is associative: what two merges make, one merge makes of both tables
    together (`mergedAt_overriding`).  So the captures of a run in segments are what single
    merges into the file of the beginning make (`Gathers`), of tables that are drawn from
    what was recorded so far (`DrawnFrom`).

    A table drawn from a history has all its offsets, and if the history gives no offset two
    lengths, there is only one such table (`DrawnFrom.eq_of_consistent`).  Hence the cuts do
    not show in the last capture (`segments_as_one`), and to finish again with nothing
    recorded writes the same bytes once more. -/

namespace ExecTruth

variable {history later : History} {table table' : InstructionTable}

/-! ## Tables drawn from a history -/

/-- No offset was executed with two lengths. -/
def History.Consistent (history : History) : Prop :=
  ∀ e ∈ history, ∀ e' ∈ history, e.2.offset = e'.2.offset → e.2.length = e'.2.length

instance (history : History) : Decidable history.Consistent :=
  inferInstanceAs (Decidable (∀ e ∈ history, ∀ e' ∈ history, _ → _))

theorem History.has_append {o : Int64} :
    (history ++ later).Has o ↔ history.Has o ∨ later.Has o := by
  simp only [History.Has, List.mem_append, or_and_right, exists_or]

namespace SortedMap

/-- The table has the offsets of a history, each with a length that some worker gave it. -/
structure DrawnFrom (table : InstructionTable) (history : History) : Prop where
  contains_iff : ∀ o, table.contains o = true ↔ history.Has o
  given : ∀ {o length}, table.find? o = some length → ∃ e ∈ history, e.2 = ⟨o, length⟩

theorem drawnFrom_empty : DrawnFrom .empty [] where
  contains_iff o := by simp [contains, find?_empty, History.Has]
  given h := nomatch h

/-- Tables drawn from two histories make one that is drawn from both. -/
theorem DrawnFrom.overriding (h : DrawnFrom table history) (h' : DrawnFrom table' later) :
    DrawnFrom (table.overriding table') (history ++ later) where
  contains_iff o := by
    rw [contains_overriding_iff, h.contains_iff, h'.contains_iff, History.has_append]
  given {o length} hlength := by
    rw [find?_overriding, Option.or_eq_some_iff] at hlength
    rcases hlength with hlength | ⟨-, hlength⟩
    · obtain ⟨e, he, hinstruction⟩ := h.given hlength
      exact ⟨e, List.mem_append_left _ he, hinstruction⟩
    · obtain ⟨e, he, hinstruction⟩ := h'.given hlength
      exact ⟨e, List.mem_append_right _ he, hinstruction⟩

theorem DrawnFrom.eq_empty (h : DrawnFrom table []) : table = .empty := by
  refine ext_find? fun o => ?_
  rw [find?_empty, Option.eq_none_iff_forall_ne_some]
  intro length hlength
  obtain ⟨e, he, -⟩ := h.given hlength
  exact nomatch he

/-- Of a history that gives no offset two lengths, only one table can be drawn. -/
theorem DrawnFrom.eq_of_consistent (h : DrawnFrom table history) (h' : DrawnFrom table' history)
    (hconsistent : history.Consistent) : table = table' := by
  have hle : ∀ {table table' : InstructionTable}, DrawnFrom table history →
      DrawnFrom table' history → ∀ o length, table.find? o = some length →
        table'.find? o = some length := by
    intro table table' h h' o length hlength
    obtain ⟨e, he, hinstruction⟩ := h.given hlength
    have hhas : history.Has o := ⟨e, he, by rw [hinstruction]⟩
    obtain ⟨length', hlength'⟩ := Option.isSome_iff_exists.1 ((h'.contains_iff o).2 hhas)
    obtain ⟨e', he', hinstruction'⟩ := h'.given hlength'
    -- both lengths were recorded for the offset, and the history gives it only one
    have hsame := hconsistent e he e' he'
    rw [hinstruction, hinstruction'] at hsame
    have hlengths : length = length' := hsame rfl
    rw [hlength', hlengths]
  refine ext_find? fun o => Option.ext fun length => ?_
  exact ⟨hle h h' o length, hle h' h o length⟩

end SortedMap

/-- What the sets hold together is drawn from what was executed. -/
theorem WorkerSets.Tracks.drawnFrom {ws : WorkerSets} (h : ws.Tracks history) :
    SortedMap.DrawnFrom ws.union history where
  contains_iff o := h.contains_union_iff
  given {o length} hlength := by
    obtain ⟨worker, hfirst, -⟩ := h.find?_union_iff.1 hlength
    rw [History.firstLength, List.findSome?_eq_some_iff] at hfirst
    obtain ⟨front, e, back, rfl, hgives, -⟩ := hfirst
    obtain ⟨⟨-, rfl⟩, hsame⟩ := Option.ite_none_right_eq_some.1 hgives
    exact ⟨e, by simp, by rw [← Option.some.inj hsame]⟩

namespace Session

open Job

/-! ## One segment -/

/-- Records what workers executed, one after the other. -/
def recordAll (history : History) (s : Session) : Logged Session :=
  history.foldlM (fun s e => s.record e.1 e.2) s

/-- Records what workers executed, and finishes. -/
def recordAndFinish {ε : Type} (history : History) (s : Session) :
    Job ε (Except MergeFault RichCapture × Session) := do
  let s ← Job.ofLogged (s.recordAll history)
  s.finish

/-- Recording writes events only; the finish is that of what was recorded. -/
theorem recordAndFinish_of_recordAll {ε : Type} {s s₁ : Session} {h : Host}
    {events : List Log.Event} (hrecord : s.recordAll history h.events = (s₁, events)) :
    (s.recordAndFinish history : Job ε _) h = s₁.finish ⟨h.files, events⟩ := by
  rw [recordAndFinish, bind_of_ok (ofLogged_of_eq hrecord)]

/-- Recording changes the worker sets of a session and nothing else. -/
theorem recordAll_eq (s : Session) (later : History) (events : List Log.Event) :
    s.recordAll later events
      = ({ s with workers := (s.workers.recordAll later events).1 },
          (s.workers.recordAll later events).2) := by
  induction later generalizing s events with
  | nil => rfl
  | cons e rest ih => exact ih _ _

/-- The sets go on with what is recorded, and the rest of the session stays. -/
theorem recordAll_of_tracks {s : Session} (h : s.workers.Tracks history) (later : History)
    (events : List Log.Event) :
    ∃ ws events', s.recordAll later events = ({ s with workers := ws }, events')
      ∧ ws.Tracks (history ++ later) :=
  ⟨_, _, s.recordAll_eq later events, h.recordAll later events⟩

/-- A session of the configuration in which nothing waits to be merged. -/
structure Idle (config : SessionConfig) (s : Session) : Prop where
  config : s.config = config
  tracks : s.workers.Tracks []

theorem idle_start (config : SessionConfig) : Idle config (.start config) :=
  ⟨rfl, WorkerSets.tracks_empty⟩

/-- Where a finish is made: the binary is as it was at first, and the legacy capture is
    another file than the output. -/
structure Suits (config : SessionConfig) (start h : Host) : Prop where
  binary : h.files.nodeAt? config.binary = start.files.nodeAt? config.binary
  apart : ∀ legacy ∈ config.legacy, ∀ loc, h.files.fileAt? legacy = some loc →
    h.files.fileAt? config.output ≠ some loc

variable {config : SessionConfig} {start h h' : Host} {s s' : Session}
  {answer : Except MergeFault RichCapture}

/-- What comes of a segment: the session is empty again, and what it held is merged into
    the file, or nothing has changed. -/
theorem outcome_of_recordAndFinish (hidle : Idle config s) (hsuits : Suits config start h)
    (hdevice : h.files.nodeAt? config.output ≠ some .nullDevice)
    (hrun : (s.recordAndFinish history : Job Empty _) h = .ok (answer, s') h') :
    Idle config s'
    ∧ (((∀ given, answer ≠ .ok given) ∧ h'.files = h.files)
      ∨ ∃ digest table merged loc, digestAt config.binary start.files = .ok digest
        ∧ SortedMap.DrawnFrom table history
        ∧ mergedAt config.output config.binary table digest h.files = .ok merged
        ∧ (∀ given, answer = .ok given → given = merged)
        ∧ h'.files.fileAt? config.output = some loc
        ∧ h'.files.find? loc = some (.file merged.encode)) := by
  obtain ⟨ws, events, hrecord, htracks⟩ := recordAll_of_tracks hidle.tracks history h.events
  rw [List.nil_append] at htracks
  have hfinish : (finish { s with workers := ws } : Job Empty _) ⟨h.files, events⟩
      = .ok (answer, s') h' := (recordAndFinish_of_recordAll hrecord).symm.trans hrun
  obtain ⟨-, hend⟩ := attempt_of_finish hfinish
  have houtcome := outcome_of_finish hfinish
  dsimp only at houtcome
  rw [hidle.config] at houtcome
  refine ⟨⟨by rw [hend]; exact hidle.config, by rw [hend]; exact htracks.drained⟩, ?_⟩
  rcases houtcome hdevice hsuits.apart with ⟨-, hfails, hfiles⟩
    | ⟨digest, merged, loc, -, hdigest, hmade, hgives, -, hloc, hfile⟩
  · exact Or.inl ⟨hfails, hfiles⟩
  · exact Or.inr ⟨digest, ws.union, merged, loc, digestAt_congr hsuits.binary.symm hdigest,
      htracks.drawnFrom, hmade, hgives, hloc, hfile⟩

/-- A finish that succeeds has written all addresses of its legacy capture. -/
theorem emitted_of_recordAndFinish {capture : RichCapture} (hidle : Idle config s)
    (hrun : (s.recordAndFinish history : Job Empty _) h = .ok (.ok capture, s') h') :
    ∀ legacy ∈ config.legacy,
      (Legacy.emit capture.base capture.table.keys).outcome = .ok () := by
  intro legacy hlegacy
  obtain ⟨ws, events, hrecord, -⟩ := recordAll_of_tracks hidle.tracks history h.events
  rw [recordAndFinish_of_recordAll hrecord] at hrun
  obtain ⟨⟨events', hstore⟩, -⟩ := store_of_finish hrun
  have hconfig : ({ s with workers := ws } : Session).config.legacy = some legacy := by
    rw [← Option.mem_def.1 hlegacy, ← hidle.config]
  obtain ⟨h₁, h₂, -, hsend, -⟩ := sendTo_of_store hstore hconfig
  exact outcome_of_sendTo_ok hsend

/-! ## Runs in segments -/

/-- What was recorded in a segment, in a new session or in the one before, where it was
    finished and what the finish gave. -/
structure Segment where
  fresh : Bool
  recorded : History
  host : Host
  capture : RichCapture

/-- The session that goes on, or a new one. -/
def orFresh (config : SessionConfig) (fresh : Bool) (s : Session) : Session :=
  if fresh then .start config else s

/-- A fresh session is as idle as the one it stands for. -/
theorem Idle.orFresh (h : Idle config s) (fresh : Bool) :
    Idle config (orFresh config fresh s) := by
  cases fresh with
  | true => exact idle_start config
  | false => exact h

/-- Segments that were finished one after the other from a host on.  In between, what the
    output leads to and the binary stay as they are, and anything else may change. -/
inductive SegmentRun (config : SessionConfig) (start : Host) :
    List Segment → Session → Host → Prop
  | start : SegmentRun config start [] (.start config) start
  | finish {segments : List Segment} {s s' : Session} {h h' : Host} {c : Segment}
      (before : SegmentRun config start segments s h)
      (same : c.host.files.nodeAt? config.output = h.files.nodeAt? config.output)
      (suits : Suits config start c.host)
      (run : ((orFresh config c.fresh s).recordAndFinish c.recorded : Job Empty _) c.host
        = .ok (.ok c.capture, s') h') :
      SegmentRun config start (segments ++ [c]) s' h'

/-- What was recorded in segments. -/
def recordedIn (segments : List Segment) : History := segments.flatMap (·.recorded)

theorem recordedIn_concat (segments : List Segment) (c : Segment) :
    recordedIn (segments ++ [c]) = recordedIn segments ++ c.recorded := by
  rw [recordedIn, List.flatMap_append, List.flatMap_singleton]
  rfl

/-- The offset is neither in the capture of the build at the beginning nor in the history. -/
structure Lacks (config : SessionConfig) (start : Host) (history : History) (o : Int64) :
    Prop where
  recorded : ¬ history.Has o
  stored : ∀ digest prior, digestAt config.binary start.files = .ok digest →
    RichCapture.ofBuild? start.files config.output digest = some prior →
      ¬ prior.table.contains o = true

/-- The capture is what a single merge into the file of the beginning makes, of a table that
    is drawn from the history. -/
def Made (config : SessionConfig) (start : Host) (history : History) (capture : RichCapture) :
    Prop :=
  ∃ digest table, digestAt config.binary start.files = .ok digest
    ∧ SortedMap.DrawnFrom table history
    ∧ mergedAt config.output config.binary table digest start.files = .ok capture

/-- What a finish leaves that succeeds: the capture that a single one would have made stands
    at the output and is read back, and the legacy capture has all its addresses. -/
structure Wrote (config : SessionConfig) (start : Host) (history : History)
    (capture : RichCapture) (h : Host) : Prop where
  made : Made config start history capture
  stands : h.files.nodeAt? config.output = some (.file capture.encode)
  found : RichCapture.ofBuild? h.files config.output capture.digest = some capture
  emitted : ∀ legacy ∈ config.legacy,
    (Legacy.emit capture.base capture.table.keys).outcome = .ok ()

/-- What segments keep up: nothing waits to be merged, and a merge into what the output leads
    to now makes what one merge of all that was recorded, and of that, makes of what it led to
    at the beginning. -/
structure Gathers (config : SessionConfig) (start : Host) (history : History) (s : Session)
    (h : Host) : Prop where
  idle : Idle config s
  device : h.files.nodeAt? config.output ≠ some .nullDevice
  joins : ∃ table, SortedMap.DrawnFrom table history ∧ ∀ {t : FileTree}
    {later : InstructionTable} {digest : String} {c : RichCapture},
      t.nodeAt? config.output = h.files.nodeAt? config.output →
      t.nodeAt? config.binary = start.files.nodeAt? config.binary →
      digestAt config.binary start.files = .ok digest →
      mergedAt config.output config.binary later digest t = .ok c →
      mergedAt config.output config.binary (table.overriding later) digest start.files = .ok c

variable {segments : List Segment} {host : Host} {capture capture' : RichCapture}
  {o : Int64}

/-- The capture made has the offsets of the history, and those of the earlier capture of the
    build. -/
theorem Made.contains_iff (hmade : Made config start history capture) :
    ∃ digest, digestAt config.binary start.files = .ok digest ∧ capture.digest = digest
      ∧ (capture.table.contains o = true
        ↔ (∃ prior, RichCapture.ofBuild? start.files config.output digest = some prior
            ∧ prior.table.contains o = true) ∨ history.Has o) := by
  obtain ⟨digest, table, hdigest, hdrawn, hmerged⟩ := hmade
  refine ⟨digest, hdigest, digest_of_mergedAt hmerged, ?_⟩
  rw [contains_of_mergedAt hmerged, hdrawn.contains_iff]

/-- A capture that lacks an offset can be counted. -/
theorem Made.countable (hmade : Made config start history capture)
    (hlacks : Lacks config start history o) : capture.Countable := by
  obtain ⟨digest, hdigest, -, hcontains⟩ := hmade.contains_iff (o := o)
  refine RichCapture.countable_of_lacking (o := o) fun hmem => ?_
  rcases hcontains.1 hmem with ⟨prior, hprior, hstored⟩ | hhas
  · exact hlacks.stored digest prior hdigest hprior hstored
  · exact hlacks.recorded hhas

/-- Two captures that are made of one history have the same digest, the same load base and
    the same offsets, and are the same if it gives no offset two lengths. -/
theorem Made.agree (hmade : Made config start history capture)
    (hmade' : Made config start history capture') :
    capture.digest = capture'.digest ∧ capture.base = capture'.base
    ∧ (∀ o, capture.table.contains o = true ↔ capture'.table.contains o = true)
    ∧ (history.Consistent → capture = capture') := by
  obtain ⟨digest, table, hdigest, hdrawn, hmerged⟩ := hmade
  obtain ⟨digest', table', hdigest', hdrawn', hmerged'⟩ := hmade'
  cases hdigest.symm.trans hdigest'
  obtain ⟨hbase, hoffsets⟩ := mergedAt_same_offsets hmerged hmerged' fun o => by
    rw [hdrawn.contains_iff, hdrawn'.contains_iff]
  refine ⟨?_, hbase, hoffsets, fun hconsistent => ?_⟩
  · rw [digest_of_mergedAt hmerged, digest_of_mergedAt hmerged']
  · cases hdrawn.eq_of_consistent hdrawn' hconsistent
    exact Except.ok.inj (hmerged.symm.trans hmerged')

/-- Before the first segment, a merge makes what it makes. -/
theorem gathers_start (hdevice : start.files.nodeAt? config.output ≠ some .nullDevice) :
    Gathers config start [] (.start config) start where
  idle := idle_start config
  device := hdevice
  joins := by
    refine ⟨.empty, SortedMap.drawnFrom_empty, fun same hbinary _ hmade => ?_⟩
    rw [SortedMap.empty_overriding]
    exact mergedAt_congr same.symm hbinary.symm hmade

/-- Into a capture that was written, a merge is made as if what it joins had been merged
    with the rest. -/
theorem Wrote.gathers (hwrote : Wrote config start history capture h) (hidle : Idle config s) :
    Gathers config start history s h where
  idle := hidle
  device := by
    rw [hwrote.stands]
    exact nofun
  joins := by
    obtain ⟨digest, table, hdigest, hdrawn, hmade⟩ := hwrote.made
    refine ⟨table, hdrawn, fun {t later digest' c} same _ hdigest' hmerged => ?_⟩
    cases hdigest.symm.trans hdigest'
    -- the merge finds the capture that was written, whatever else has changed
    have hfound : RichCapture.ofBuild? t config.output digest = some capture := by
      rw [RichCapture.ofBuild?_congr same, ← digest_of_mergedAt hmade]
      exact hwrote.found
    rw [mergedAt, hfound] at hmerged
    rw [mergedAt_overriding hmade]
    exact hmerged

/-- **STEP**.  A finish that succeeds writes what a single one would have made of all that was
    recorded up to it. -/
theorem Gathers.finish (hgathers : Gathers config start history s h) (fresh : Bool)
    (same : host.files.nodeAt? config.output = h.files.nodeAt? config.output)
    (hsuits : Suits config start host) (hlacks : Lacks config start (history ++ later) o)
    (hrun : ((orFresh config fresh s).recordAndFinish later : Job Empty _) host
      = .ok (.ok capture, s') h') :
    Idle config s' ∧ Wrote config start (history ++ later) capture h' := by
  have hidle := hgathers.idle.orFresh fresh
  obtain ⟨hend, ⟨hfails, -⟩ | ⟨digest, table', merged, loc, hdigest, hdrawn', hmerged, hgives,
      hloc, hfile⟩⟩ := outcome_of_recordAndFinish hidle hsuits (same ▸ hgathers.device) hrun
  · exact absurd rfl (hfails capture)
  · obtain rfl := hgives capture rfl
    -- what was merged now joins the table that stands for the segments before
    obtain ⟨table, hdrawn, hjoins⟩ := hgathers.joins
    have hmade : Made config start (history ++ later) capture :=
      ⟨digest, _, hdigest, hdrawn.overriding hdrawn',
        hjoins same hsuits.binary hdigest hmerged⟩
    have hfits := fits_of_digestAt hdigest
    rw [← digest_of_mergedAt hmerged] at hfits
    have hstored := RichCapture.stored_of_fileAt? hloc hfile hfits (hmade.countable hlacks)
    refine ⟨hend, hmade, FileTree.nodeAt?_of_fileAt? hloc hfile, ?_,
      emitted_of_recordAndFinish hidle hrun⟩
    rw [RichCapture.ofBuild?_of_stored hstored, if_pos rfl]

/-- **RUN**.  The same of all segments. -/
theorem gathers (run : SegmentRun config start segments s h)
    (hdevice : start.files.nodeAt? config.output ≠ some .nullDevice)
    (hlacks : Lacks config start (recordedIn segments) o) :
    Gathers config start (recordedIn segments) s h
    ∧ ∀ last ∈ segments.getLast?, Wrote config start (recordedIn segments) last.capture h := by
  induction run with
  | start => exact ⟨gathers_start hdevice, nofun⟩
  | @finish segments s s' h h' c before same suits run ih =>
      rw [recordedIn_concat] at hlacks ⊢
      -- an offset that is lacking in the end has been lacking before
      have hbefore : Lacks config start (recordedIn segments) o :=
        ⟨fun hhas => hlacks.recorded (History.has_append.2 (Or.inl hhas)), hlacks.stored⟩
      obtain ⟨hend, hwrote⟩ := (ih hbefore).1.finish c.fresh same suits hlacks run
      refine ⟨hwrote.gathers hend, ?_⟩
      rw [List.getLast?_concat]
      rintro _ ⟨⟩
      exact hwrote

/-! ## One finish, and another one -/

/-- Where all files can be written, everything is recorded and finished at once, if it was
    finished in segments. -/
theorem Wrote.at_once (hwrote : Wrote config start history capture h)
    (same : host.files.nodeAt? config.output = start.files.nodeAt? config.output)
    (hsuits : Suits config start host)
    (houtput : ∃ loc, host.files.fileAt? config.output = some loc)
    (hlegacy : ∀ legacy ∈ config.legacy, ∃ loc, host.files.fileAt? legacy = some loc) :
    ∃ once s₁ h₁, ((Session.start config).recordAndFinish history : Job Empty _) host
      = .ok (.ok once, s₁) h₁ := by
  obtain ⟨digest, table, hdigest, hdrawn, hmerged⟩ := hwrote.made
  obtain ⟨ws, events, hrecord, htracks⟩ :=
    recordAll_of_tracks (idle_start config).tracks history host.events
  rw [List.nil_append] at htracks
  -- the capture of the build or the load base that there was for the segments is there
  obtain ⟨once, honce⟩ : ∃ c, mergedAt config.output config.binary ws.union digest start.files
      = .ok c := exists_mergedAt_iff.2 (exists_mergedAt_iff.1 ⟨capture, hmerged⟩)
  obtain ⟨hbase, hoffsets⟩ := mergedAt_same_offsets hmerged honce fun o => by
    rw [hdrawn.contains_iff, htracks.drawnFrom.contains_iff]
  obtain ⟨loc, hloc⟩ := houtput
  have hfits := fits_of_digestAt hdigest
  rw [← digest_of_mergedAt honce] at hfits
  have hstore : ∀ events, ∃ h₁, store config ws.union ⟨host.files, events⟩ = .ok once h₁ := by
    intro events
    refine store_of_fileAt? (digestAt_congr hsuits.binary hdigest)
      (mergedAt_congr same hsuits.binary honce) hfits hloc fun legacy hmem => ?_
    refine ⟨hlegacy legacy hmem, ?_⟩
    rw [← hbase, ← SortedMap.keys_eq_of_contains hoffsets]
    exact hwrote.emitted legacy hmem
  obtain ⟨h₁, hfinish⟩ := finish_of_store (ε := Empty)
    (s := { Session.start config with workers := ws }) hstore events
  exact ⟨once, _, h₁, (recordAndFinish_of_recordAll hrecord).trans hfinish⟩

/-- A finish with nothing recorded leaves the capture that was written, and gives no
    other. -/
theorem Wrote.again (hwrote : Wrote config start history capture h) (hidle : Idle config s)
    (same : host.files.nodeAt? config.output = h.files.nodeAt? config.output)
    (hsuits : Suits config start host)
    (hrun : (s.recordAndFinish [] : Job Empty _) host = .ok (answer, s') h') :
    h'.files.nodeAt? config.output = h.files.nodeAt? config.output
    ∧ ∀ given, answer = .ok given → given = capture := by
  have hdevice : host.files.nodeAt? config.output ≠ some .nullDevice := by
    rw [same, hwrote.stands]
    exact nofun
  obtain ⟨-, ⟨hfails, hfiles⟩ | ⟨digest, table, merged, loc, hdigest, hdrawn, hmerged, hgives,
      hloc, hfile⟩⟩ := outcome_of_recordAndFinish hidle hsuits hdevice hrun
  · rw [hfiles]
    exact ⟨same, fun given hgiven => absurd hgiven (hfails given)⟩
  · obtain ⟨digest', hdigest', hbuild, -⟩ := hwrote.made.contains_iff (o := 0)
    cases hdigest.symm.trans hdigest'
    -- nothing was recorded, so the capture is merged with the empty table
    have hkept : merged = capture := by
      rw [mergedAt, RichCapture.ofBuild?_congr same, ← hbuild, hwrote.found,
        hdrawn.eq_empty] at hmerged
      dsimp only at hmerged
      rw [SortedMap.overriding_empty] at hmerged
      exact (Except.ok.inj hmerged).symm
    rw [hkept] at hgives hfile
    exact ⟨(FileTree.nodeAt?_of_fileAt? hloc hfile).trans hwrote.stands.symm, hgives⟩

/-- **SEGMENTS**.  What is finished in segments ends with the capture that the last finish
    gave.  To record everything and finish once, from the same output file on, gives the same
    digest, load base and offsets, and it succeeds where the files can be written; if no
    offset was executed with two lengths, it gives and writes the same capture.  To finish
    again with nothing recorded leaves what stands there.  The output must not be the null
    device, where nothing stands, and one offset must be neither stored nor recorded, which
    leaves the number of instructions room in eight bytes. -/
theorem segments_as_one {last : Segment} (run : SegmentRun config start (segments ++ [last]) s h)
    (hdevice : start.files.nodeAt? config.output ≠ some .nullDevice)
    (hroom : ∃ o, Lacks config start (recordedIn (segments ++ [last])) o) :
    h.files.nodeAt? config.output = some (.file last.capture.encode)
    ∧ (∀ host, host.files.nodeAt? config.output = start.files.nodeAt? config.output →
        Suits config start host →
        ((∃ loc, host.files.fileAt? config.output = some loc) →
          (∀ legacy ∈ config.legacy, ∃ loc, host.files.fileAt? legacy = some loc) →
          ∃ once s₁ h₁, ((Session.start config).recordAndFinish (recordedIn (segments ++ [last]))
            : Job Empty _) host = .ok (.ok once, s₁) h₁)
        ∧ ∀ once s₁ h₁, ((Session.start config).recordAndFinish (recordedIn (segments ++ [last]))
            : Job Empty _) host = .ok (.ok once, s₁) h₁ →
          last.capture.digest = once.digest ∧ last.capture.base = once.base
          ∧ (∀ o, last.capture.table.contains o = true ↔ once.table.contains o = true)
          ∧ ((recordedIn (segments ++ [last])).Consistent → last.capture = once
            ∧ h.files.nodeAt? config.output = h₁.files.nodeAt? config.output))
    ∧ ∀ fresh host answer s₂ h₂, host.files.nodeAt? config.output = h.files.nodeAt? config.output →
        Suits config start host →
        ((orFresh config fresh s).recordAndFinish [] : Job Empty _) host = .ok (answer, s₂) h₂ →
        h₂.files.nodeAt? config.output = h.files.nodeAt? config.output
        ∧ ∀ given, answer = .ok given → given = last.capture := by
  obtain ⟨o, hlacks⟩ := hroom
  obtain ⟨hgathers, hlast⟩ := gathers run hdevice hlacks
  have hwrote := hlast last List.getLast?_concat
  refine ⟨hwrote.stands, fun host same hsuits => ⟨hwrote.at_once same hsuits, ?_⟩, ?_⟩
  · intro once s₁ h₁ honce
    obtain ⟨-, hwrote₁⟩ := (gathers_start hdevice).finish false same hsuits hlacks honce
    obtain ⟨hdigest, hbase, hoffsets, hsame⟩ := hwrote.made.agree hwrote₁.made
    refine ⟨hdigest, hbase, hoffsets, fun hconsistent => ?_⟩
    -- with one length for each offset the two captures are the same, and so are the files
    have hcapture := hsame hconsistent
    rw [hwrote.stands, hwrote₁.stands, hcapture]
    exact ⟨rfl, rfl⟩
  · intro fresh host answer s₂ h₂ same hsuits hagain
    exact hwrote.again (hgathers.idle.orFresh fresh) same hsuits hagain

/-! ## Two sessions and one -/

/-- What stands in `c` is a capture of the binary `p`, and a legacy capture goes to `l`. -/
private def configParted : SessionConfig := ⟨⟨[112]⟩, ⟨[99]⟩, some ⟨[108]⟩⟩

private def parted (table : InstructionTable) : RichCapture := ⟨Digest.ofBytes [1], 7, table⟩

private def hostParted (table : InstructionTable) : Host := ⟨filesWithCapture (parted table), []⟩

private def tableBefore : InstructionTable := .ofListFirst [(0, 2)]

private def tableBetween : InstructionTable := .ofListFirst [(0, 2), (4, 4), (8, 6)]

private def tableAfter : InstructionTable := .ofListFirst [(0, 2), (4, 4), (8, 6), (12, 3)]

/-- Two workers execute what is at 4 and at 8. -/
private def firstPart : Segment :=
  ⟨false, [(0, ⟨4, 4⟩), (1, ⟨8, 6⟩)], hostParted tableBefore, parted tableBetween⟩

/-- In a new session, what is at 8 is executed again, and what is at 12. -/
private def secondPart : Segment :=
  ⟨true, [(2, ⟨12, 3⟩), (0, ⟨8, 6⟩)], hostParted tableBetween, parted tableAfter⟩

private theorem nodeAt?_output (table : InstructionTable) :
    (hostParted table).files.nodeAt? configParted.output = some (.file (parted table).encode) :=
  FileTree.nodeAt?_of_fileAt? (fileAt?_filesWithCapture _) rfl

private theorem fileAt?_legacy (table : InstructionTable) :
    (hostParted table).files.fileAt? ⟨[108]⟩ = some [[108]] :=
  FileTree.fileAt?_name rfl rfl rfl (by decide) (Or.inl rfl)

private theorem suits_parted (table table' : InstructionTable) :
    Suits configParted (hostParted table) (hostParted table') where
  binary := by
    have hbinary : ∀ table, (hostParted table).files.nodeAt? ⟨[112]⟩ = some (.file [1]) := by
      intro table
      exact FileTree.nodeAt?_of_fileAt? (FileTree.fileAt?_name rfl rfl rfl (by decide)
        (Or.inr ⟨_, rfl⟩)) rfl
    exact (hbinary table').trans (hbinary table).symm
  apart := by
    rintro legacy ⟨⟩ loc hloc
    cases (fileAt?_legacy table').symm.trans hloc
    rw [show (hostParted table').files.fileAt? configParted.output = _ from
      fileAt?_filesWithCapture _]
    decide

/-- A session in which nothing waits is finished on top of a capture of the binary. -/
private theorem finish_parted (table table' : InstructionTable) (history : History) {s : Session}
    (hidle : Idle configParted s) (hcount : (parted table).Countable)
    (hjoin : table.overriding (s.recordAll history []).1.workers.union = table')
    (hemits : (Legacy.emit 7 table'.keys).outcome = .ok ()) :
    ∃ s' h', (s.recordAndFinish history : Job Empty _) (hostParted table)
      = .ok (.ok (parted table'), s') h' := by
  obtain ⟨ws, events, hrecord, -⟩ := recordAll_of_tracks hidle.tracks history []
  rw [hrecord] at hjoin
  subst hjoin
  obtain ⟨h', hfinish⟩ := finish_of_filesWithCapture (ε := Empty)
    (s := { s with workers := ws }) hidle.config (c := parted table) rfl hcount (by
      rintro legacy ⟨⟩
      exact ⟨⟨_, fileAt?_legacy table⟩, hemits⟩) events
  exact ⟨_, h', (recordAndFinish_of_recordAll hrecord).trans hfinish⟩

private theorem lacks_parted :
    Lacks configParted (hostParted tableBefore) (recordedIn [firstPart, secondPart]) 16 where
  recorded := by
    rintro ⟨e, he, hoffset⟩
    revert e
    decide
  stored := by
    intro digest prior _ hprior
    have hstored := RichCapture.stored_of_fileAt? (fileAt?_filesWithCapture (parted tableBefore))
      rfl (Digest.fits_ofBytes [1]) (by decide)
    rw [show RichCapture.ofBuild? (hostParted tableBefore).files configParted.output digest = _ from
      RichCapture.ofBuild?_of_stored hstored digest] at hprior
    obtain ⟨-, hsome⟩ := Option.ite_none_right_eq_some.1 hprior
    obtain rfl := Option.some.inj hsome
    decide

/-- What two sessions capture one after the other, one session captures at once, and it
    stays when the last one is finished again. -/
theorem segments_as_one_two_sessions :
    ∃ s h s₁ h₁ s₂ h₂, SegmentRun configParted (hostParted tableBefore) [firstPart, secondPart] s h
      ∧ ((Session.start configParted).recordAndFinish (recordedIn [firstPart, secondPart])
          : Job Empty _) (hostParted tableBefore) = .ok (.ok (parted tableAfter), s₁) h₁
      ∧ (s.recordAndFinish [] : Job Empty _) (hostParted tableAfter)
          = .ok (.ok (parted tableAfter), s₂) h₂
      ∧ ∀ files ∈ [h.files, h₁.files, h₂.files],
          files.nodeAt? ⟨[99]⟩ = some (.file (parted tableAfter).encode) := by
  have hdevice : (hostParted tableBefore).files.nodeAt? configParted.output
      ≠ some .nullDevice := by
    rw [nodeAt?_output]
    exact nofun
  have hidle := idle_start configParted
  obtain ⟨s₀, h₀, hfirst⟩ := finish_parted tableBefore tableBetween firstPart.recorded hidle
    (by decide) (by decide) (by decide)
  obtain ⟨s, h, hsecond⟩ := finish_parted tableBetween tableAfter secondPart.recorded hidle
    (by decide) (by decide) (by decide)
  have hbefore : SegmentRun configParted (hostParted tableBefore) ([] ++ [firstPart]) s₀ h₀ :=
    .finish .start rfl (suits_parted _ _) hfirst
  have hlacks : Lacks configParted (hostParted tableBefore) (recordedIn ([] ++ [firstPart])) 16 :=
    ⟨fun hhas => lacks_parted.recorded (History.has_append.2 (Or.inl hhas)), lacks_parted.stored⟩
  have hwrote := (gathers hbefore hdevice hlacks).2 firstPart rfl
  have run : SegmentRun configParted (hostParted tableBefore) ([firstPart] ++ [secondPart]) s h :=
    .finish hbefore ((nodeAt?_output tableBetween).trans hwrote.stands.symm) (suits_parted _ _)
      hsecond
  obtain ⟨hstands, hone, hagain⟩ := segments_as_one run hdevice ⟨16, lacks_parted⟩
  obtain ⟨hsucceeds, hsame⟩ := hone (hostParted tableBefore) rfl (suits_parted _ _)
  obtain ⟨once, s₁, h₁, honce⟩ := hsucceeds ⟨_, fileAt?_filesWithCapture _⟩ (by
    rintro legacy ⟨⟩
    exact ⟨_, fileAt?_legacy _⟩)
  obtain ⟨-, -, -, hconsistent⟩ := hsame once s₁ h₁ honce
  obtain ⟨rfl, hstands₁⟩ := hconsistent (by decide)
  have hend : Idle configParted s := (gathers run hdevice lacks_parted).1.idle
  have hempty : tableAfter.overriding s.workers.union = tableAfter := by
    rw [hend.tracks.drawnFrom.eq_empty, SortedMap.overriding_empty]
  obtain ⟨s₂, h₂, hrepeat⟩ := finish_parted tableAfter tableAfter [] hend (by decide) hempty
    (by decide)
  obtain ⟨hstands₂, -⟩ := hagain false (hostParted tableAfter) _ s₂ h₂
    ((nodeAt?_output tableAfter).trans hstands.symm) (suits_parted _ _) hrepeat
  refine ⟨s, h, s₁, h₁, s₂, h₂, run, honce, hrepeat, ?_⟩
  simp only [List.forall_mem_cons]
  exact ⟨hstands, hstands₁.symm.trans hstands, hstands₂.trans hstands, nofun⟩

end Session

end ExecTruth
