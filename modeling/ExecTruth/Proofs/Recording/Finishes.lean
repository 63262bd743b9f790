import ExecTruth.Proofs.Capture.FailedMerges
import ExecTruth.Proofs.Recording.WholeRun

/-! # Finishing again — what is stored of a session that is finished more than once

    Finishing takes the instructions out of the session before it merges them, and does
    not put them back: those that it cannot merge are lost to every later finish
    (`finish_after_missing_binary`).  It can merge them if the binary can be read, if its
    load base can be told or a capture of it is stored already, and if the output leads to
    a file (`Mergeable`).  A legacy capture that cannot be written makes a finish fail as
    well, but by then the rest is stored.

    So what is stored after any finishes is what was stored at first and what those took
    that could merge it; and those that succeed are among them (`capture_of_finishes`).
    The induction is on the finishes, and what it carries along is that the sets are
    empty again, with the capture at the output accounted for (`Keeps`). -/

namespace ExecTruth.Session

open Job

/-! ## One finish -/

/-- A finish that cannot merge fails and changes no file.  One that can has the merged
    capture written at its end and gives no other, and only a legacy capture makes it fail. -/
theorem outcome_of_finish {ε : Type} {s s' : Session} {answer : Except MergeFault RichCapture}
    {h h' : Host} (hfinish : (s.finish : Job ε _) h = .ok (answer, s') h')
    (hdevice : h.files.nodeAt? s.config.output ≠ some .nullDevice)
    (hlegacy : ∀ legacy ∈ s.config.legacy, ∀ loc, h.files.fileAt? legacy = some loc →
      h.files.fileAt? s.config.output ≠ some loc) :
    (¬ Mergeable s.config.output s.config.binary h.files
      ∧ (∀ given, answer ≠ .ok given) ∧ h'.files = h.files)
    ∨ ∃ digest merged loc, Mergeable s.config.output s.config.binary h.files
      ∧ digestAt s.config.binary h.files = .ok digest
      ∧ mergedAt s.config.output s.config.binary s.workers.union digest h.files = .ok merged
      ∧ (∀ given, answer = .ok given → given = merged)
      ∧ (s.config.legacy = none → answer = .ok merged)
      ∧ h'.files.fileAt? s.config.output = some loc
      ∧ h'.files.find? loc = some (.file merged.encode) := by
  obtain ⟨⟨events, hattempt⟩, -⟩ := attempt_of_finish hfinish
  have hcan : (∃ c h₁, mergeRun s.config.output s.config.binary s.workers.union
      { h with events := events } = .ok c h₁) ↔ Mergeable s.config.output s.config.binary h.files :=
    mergeRun_succeeds_iff hdevice
  rw [attempt] at hattempt
  cases hrun : mergeRun s.config.output s.config.binary s.workers.union
      { h with events := events } with
  | error e h₁ =>
      rw [store, bind_of_error hrun] at hattempt
      cases hattempt
      have hfiles := files_of_failed_mergeRun hrun
      refine Or.inl ⟨fun hmergeable => ?_, fun given hgiven => ?_, hfiles⟩
      · obtain ⟨c, h₂, hok⟩ := hcan.2 hmergeable
        rw [hrun] at hok
        cases hok
      · cases hgiven
  | ok merged h₁ =>
      obtain ⟨digest, hdigest, hbuild⟩ := mergeRun_eq_ok_iff.1 hrun
      obtain ⟨hmade, -⟩ := mergeBuild_ok hbuild
      obtain ⟨r, h₂, hstore, hgives, halone, loc, hloc, hfile⟩ :=
        store_of_mergeRun hrun hdevice hlegacy
      refine Or.inr ⟨digest, merged, loc, hcan.1 ⟨merged, h₁, hrun⟩, hdigest, hmade, ?_⟩
      rw [hstore] at hattempt
      cases r with
      | ok given =>
          cases hattempt
          exact ⟨hgives, halone, hloc, hfile⟩
      | error e =>
          cases hattempt
          refine ⟨fun given hgiven => ?_, fun hnone => ?_, hloc, hfile⟩
          · cases hgiven
          · cases halone hnone

/-! ## Finishing again and again -/

/-- A finish, with the steps that were done before it, the host that it met and what it
    gave. -/
structure FinishCall where
  steps : List Step
  host : Host
  answer : Except MergeFault RichCapture

/-- A session that is finished again and again from a host on.  In between, what its output
    leads to stays as it is, and anything else may change. -/
inductive FinishRun (config : SessionConfig) (start : Host) :
    List FinishCall → Ongoing → Host → Prop
  | start : FinishRun config start [] (.start config) start
  | call {calls : List FinishCall} {r r' : Ongoing} {h h' : Host} {s' : Session}
      {events : List Log.Event} {c : FinishCall} (before : FinishRun config start calls r h)
      (same : c.host.files.nodeAt? config.output = h.files.nodeAt? config.output)
      (run : r.run c.steps c.host.events = (r', events))
      (finish : (r'.session.finish : Job Empty _) ⟨c.host.files, events⟩ = .ok (c.answer, s') h') :
      FinishRun config start (calls ++ [c]) ⟨s', r'.kept⟩ h'

/-- The workers whose sets were kept in a session. -/
def ownersOf (calls : List FinishCall) : List Nat :=
  calls.flatMap fun c => c.steps.flatMap Step.keeps

/-- What each finish took out of the session, if the sets kept before are those of
    `owners`. -/
def taken : (owners : List Nat) → List FinishCall → List (FinishCall × History)
  | _, [] => []
  | owners, c :: rest =>
      (c, historyOf owners c.steps) :: taken (owners ++ c.steps.flatMap Step.keeps) rest

/-- The offset is in the capture of a build that the output leads to. -/
def Holds (config : SessionConfig) (image : List UInt8) (h : Host) (o : Int64) : Prop :=
  ∃ c, RichCapture.ofBuild? h.files config.output (Digest.ofBytes image) = some c
    ∧ c.table.contains o = true

/-- The offset was taken out of the session by a finish that could merge. -/
def Merged (config : SessionConfig) (calls : List FinishCall) (o : Int64) : Prop :=
  ∃ e ∈ taken [] calls, Mergeable config.output config.binary e.1.host.files ∧ e.2.Has o

variable {config : SessionConfig} {image : List UInt8} {start h h' : Host}
  {calls : List FinishCall} {c : FinishCall} {r r' : Ongoing} {s' : Session} {o : Int64}

/-- What a further finish takes out is what was recorded since the one before, with the owners of
    all that came before. -/
theorem taken_append (owners : List Nat) (calls : List FinishCall) (c : FinishCall) :
    taken owners (calls ++ [c])
      = taken owners calls ++ [(c, historyOf (owners ++ ownersOf calls) c.steps)] := by
  -- the owners grow with the calls in front, so they are general
  induction calls generalizing owners with
  | nil =>
      rw [ownersOf, List.flatMap_nil, List.append_nil]
      rfl
  | cons first rest ih =>
      show _ :: taken _ (rest ++ [c]) = _ :: (taken _ rest ++ _)
      rw [ih, ownersOf, ownersOf, List.flatMap_cons, List.append_assoc]

/-- After a further finish the offsets merged are those before, and its own if it could merge. -/
theorem merged_append_iff : Merged config (calls ++ [c]) o ↔ Merged config calls o
    ∨ Mergeable config.output config.binary c.host.files
      ∧ (historyOf (ownersOf calls) c.steps).Has o := by
  rw [Merged, taken_append]
  simp only [List.mem_append, List.mem_singleton, or_and_right, exists_or, exists_eq_left]
  exact Iff.rfl

/-- Drained sets hold nothing of the history, and their owners keep them. -/
theorem Ongoing.Follows.drained {owners : List Nat} {history : History}
    (follows : r.Follows config owners history) :
    Follows config owners []
      ⟨{ r.session with workers := r.session.workers.drained }, r.kept⟩ :=
  ⟨follows.config, follows.tracks.drained, follows.kept⟩

/-- Of the host, only what the output leads to counts. -/
theorem holds_congr (same : h'.files.nodeAt? config.output = h.files.nodeAt? config.output) :
    Holds config image h' o ↔ Holds config image h o := by
  rw [Holds, RichCapture.ofBuild?_congr same]
  exact Iff.rfl

/-- What a session relies on where it is finished: the binary is that of the build, if it can
    be read, and the legacy capture is another file than the output. -/
structure Meets (config : SessionConfig) (image : List UInt8) (h : Host) : Prop where
  build : ∀ bytes, Job.readAll config.binary h = .ok bytes h → bytes = image
  apart : ∀ legacy ∈ config.legacy, ∀ loc, h.files.fileAt? legacy = some loc →
    h.files.fileAt? config.output ≠ some loc

/-- The digest is that of the build wherever the binary can be read. -/
theorem Meets.digest_eq {digest : String} (hmeets : Meets config image h)
    (hdigest : digestAt config.binary h.files = .ok digest) : digest = Digest.ofBytes image := by
  obtain ⟨bytes, hbytes, rfl⟩ := digestAt_eq_ok_iff.1 hdigest
  rw [hmeets.build bytes ((answers_readAll _).eq_ok_iff.2 ⟨hbytes, rfl⟩)]

/-- What finishes keep up: the sets are empty, the capture of the build at the output has
    what it had at first and what could be merged since, and a finish that succeeded could
    merge and gave that capture. -/
structure Keeps (config : SessionConfig) (image : List UInt8) (start : Host)
    (calls : List FinishCall) (r : Ongoing) (h : Host) : Prop where
  follows : r.Follows config (ownersOf calls) []
  device : h.files.nodeAt? config.output ≠ some .nullDevice
  found : ∀ o, Holds config image h o ↔ Holds config image start o ∨ Merged config calls o
  succeeded : ∀ c ∈ calls,
    ((∃ given, c.answer = .ok given) → Mergeable config.output config.binary c.host.files)
    ∧ (config.legacy = none → Mergeable config.output config.binary c.host.files →
      ∃ given, c.answer = .ok given)
  given : ∀ c ∈ calls.getLast?, ∀ given, c.answer = .ok given →
    given.digest = Digest.ofBytes image ∧ RichCapture.stored config.output h.files = .ok given

/-- Before the first finish, the output is as it was at the start and nothing has been taken. -/
theorem keeps_start (hdevice : start.files.nodeAt? config.output ≠ some .nullDevice) :
    Keeps config image start [] (.start config) start where
  follows := Ongoing.follows_start config
  device := hdevice
  found o := by simp [Merged, taken]
  succeeded := nofun
  given := nofun

/-- What a finish took that could not merge is lost, and nothing else has changed. -/
theorem Keeps.lose (hkeeps : Keeps config image start calls r h)
    (hfollows : r'.Follows config (ownersOf (calls ++ [c])) [])
    (same : h'.files.nodeAt? config.output = h.files.nodeAt? config.output)
    (hcannot : ¬ Mergeable config.output config.binary c.host.files)
    (hfails : ∀ given, c.answer ≠ .ok given) : Keeps config image start (calls ++ [c]) r' h' where
  follows := hfollows
  device := by
    rw [same]
    exact hkeeps.device
  found o := by
    -- what was recorded is lost with the drained sets
    have hlost : ¬ (Mergeable config.output config.binary c.host.files
        ∧ (historyOf (ownersOf calls) c.steps).Has o) := fun hmerged => hcannot hmerged.1
    rw [holds_congr same, hkeeps.found, merged_append_iff, or_iff_left hlost]
  succeeded := by
    refine List.forall_mem_append.2 ⟨hkeeps.succeeded, List.forall_mem_singleton.2 ⟨?_, ?_⟩⟩
    · rintro ⟨given, hgiven⟩
      exact absurd hgiven (hfails given)
    · intro _ hcan
      exact absurd hcan hcannot
  given := by
    rw [List.getLast?_concat]
    rintro _ ⟨⟩ given hgiven
    exact absurd hgiven (hfails given)

/-- What a finish took that could merge is in the capture that it left. -/
theorem Keeps.gain {merged : RichCapture} {loc : Location}
    (hkeeps : Keeps config image start calls r h)
    (hfollows : r'.Follows config (ownersOf (calls ++ [c])) [])
    (hcan : Mergeable config.output config.binary c.host.files)
    (hgives : ∀ given, c.answer = .ok given → given = merged)
    (halone : config.legacy = none → c.answer = .ok merged)
    (hdigest : merged.digest = Digest.ofBytes image)
    (hcontains : ∀ o, merged.table.contains o = true
      ↔ Holds config image start o ∨ Merged config (calls ++ [c]) o)
    (hcount : merged.Countable) (hloc : h'.files.fileAt? config.output = some loc)
    (hfile : h'.files.find? loc = some (.file merged.encode)) :
    Keeps config image start (calls ++ [c]) r' h' := by
  have hfits : (Text.Utf8.encode merged.digest).length ≤ RichCapture.maxDigest :=
    hdigest ▸ Digest.fits_ofBytes image
  have hstored := RichCapture.stored_of_fileAt? hloc hfile hfits hcount
  refine ⟨hfollows, ?_, fun o => ?_, ?_, ?_⟩
  · rw [FileTree.nodeAt?_of_fileAt? hloc hfile]
    exact nofun
  · rw [← hcontains, Holds, RichCapture.ofBuild?_of_stored hstored, if_pos hdigest]
    simp
  · refine List.forall_mem_append.2 ⟨hkeeps.succeeded, List.forall_mem_singleton.2 ⟨?_, ?_⟩⟩
    · intro _
      exact hcan
    · intro hnone _
      exact ⟨merged, halone hnone⟩
  · rw [List.getLast?_concat]
    rintro _ ⟨⟩ given hgiven
    rw [hgives given hgiven]
    exact ⟨hdigest, hstored⟩

/-- **STEP**.  A finish keeps that up, if it could merge and if it could not. -/
theorem Keeps.next {events : List Log.Event} (hkeeps : Keeps config image start calls r h)
    (hmeets : Meets config image c.host)
    (hroom : ∃ o, ¬ Holds config image start o ∧ ¬ Merged config (calls ++ [c]) o)
    (same : c.host.files.nodeAt? config.output = h.files.nodeAt? config.output)
    (run : r.run c.steps c.host.events = (r', events))
    (finish : (r'.session.finish : Job Empty _) ⟨c.host.files, events⟩ = .ok (c.answer, s') h') :
    Keeps config image start (calls ++ [c]) ⟨s', r'.kept⟩ h' := by
  have hfollows := hkeeps.follows.run c.steps c.host.events
  rw [run] at hfollows
  have hdrained : Ongoing.Follows config (ownersOf (calls ++ [c])) [] ⟨s', r'.kept⟩ := by
    obtain ⟨-, rfl⟩ := attempt_of_finish finish
    rw [ownersOf, List.flatMap_append, List.flatMap_singleton]
    exact hfollows.drained
  have houtcome := outcome_of_finish finish
  rw [hfollows.config] at houtcome
  -- the finish could not merge and nothing has changed, or it could and the file is written
  rcases houtcome (same ▸ hkeeps.device) hmeets.apart with ⟨hcannot, hfails, hfiles⟩
    | ⟨digest, merged, loc, hcan, hdigest, hmade, hgives, halone, hloc, hfile⟩
  · have hsame : h'.files.nodeAt? config.output = c.host.files.nodeAt? config.output :=
      congrArg (FileTree.nodeAt? · config.output) hfiles
    exact hkeeps.lose hdrained (hsame.trans same) hcannot hfails
  · have hbuild : digest = Digest.ofBytes image := hmeets.digest_eq hdigest
    have hcontains : ∀ o, merged.table.contains o = true
        ↔ Holds config image start o ∨ Merged config (calls ++ [c]) o := by
      intro o
      rw [contains_of_mergedAt hmade, hfollows.tracks.contains_union_iff, merged_append_iff,
        and_iff_right hcan, ← or_assoc, ← hkeeps.found, ← holds_congr same, hbuild]
      exact Iff.rfl
    have hcount : merged.Countable := by
      obtain ⟨o, hstart, hmerged⟩ := hroom
      refine RichCapture.countable_of_lacking (o := o) fun hmem => ?_
      exact ((hcontains o).1 hmem).elim hstart hmerged
    exact hkeeps.gain hdrained hcan hgives halone ((digest_of_mergedAt hmade).trans hbuild)
      hcontains hcount hloc hfile

/-- **RUN**.  The same of all finishes. -/
theorem keeps (run : FinishRun config start calls r h)
    (hdevice : start.files.nodeAt? config.output ≠ some .nullDevice)
    (hmeets : ∀ c ∈ calls, Meets config image c.host)
    (hroom : ∃ o, ¬ Holds config image start o ∧ ¬ Merged config calls o) :
    Keeps config image start calls r h := by
  induction run with
  | start => exact keeps_start hdevice
  | call before same run finish ih =>
      -- what has room in the end has had room before
      obtain ⟨o, hstart, hmerged⟩ := hroom
      have hbefore := ih (fun c hc => hmeets c (by simp [hc]))
        ⟨o, hstart, fun hmem => hmerged (merged_append_iff.2 (Or.inl hmem))⟩
      exact hbefore.next (hmeets _ (by simp)) ⟨o, hstart, hmerged⟩ same run finish

/-- **FINISHES**.  After any finishes of one build, of which some may have failed and the last
    has succeeded, the capture that it gave is the one stored.  It has the offsets that were
    stored at first and all that was taken by finishes that could merge, and no other.  The
    finishes that succeeded are among those, and without a legacy capture there are no
    more. -/
theorem capture_of_finishes {last : FinishCall} {capture : RichCapture}
    (run : FinishRun config start (calls ++ [last]) r h) (hlast : last.answer = .ok capture)
    (hdevice : start.files.nodeAt? config.output ≠ some .nullDevice)
    (hmeets : ∀ c ∈ calls ++ [last], Meets config image c.host)
    (hroom : ∃ o, ¬ Holds config image start o ∧ ¬ Merged config (calls ++ [last]) o) :
    RichCapture.load config.output h = .ok capture h
    ∧ (∀ o, capture.table.contains o = true
        ↔ Holds config image start o ∨ Merged config (calls ++ [last]) o)
    ∧ ∀ c ∈ calls ++ [last],
        ((∃ given, c.answer = .ok given) → Mergeable config.output config.binary c.host.files)
        ∧ (config.legacy = none → Mergeable config.output config.binary c.host.files →
          ∃ given, c.answer = .ok given) := by
  -- what is kept up gives the last answer at once
  have hkeeps := keeps run hdevice hmeets hroom
  obtain ⟨hdigest, hstored⟩ := hkeeps.given last (List.getLast?_concat) capture hlast
  refine ⟨(RichCapture.answers_load _).eq_ok_iff.2 ⟨hstored, rfl⟩, fun o => ?_, hkeeps.succeeded⟩
  rw [← hkeeps.found, Holds, RichCapture.ofBuild?_of_stored hstored, if_pos hdigest]
  simp

/-! ## A binary that is missing for a while -/

/-- What stands in `c` is a capture of the binary `p`. -/
private def configAgain : SessionConfig := ⟨⟨[112]⟩, ⟨[99]⟩, none⟩

private def capturedBefore : RichCapture := ⟨Digest.ofBytes [1], 7, .ofListFirst [(0, 2)]⟩

/-- The binary is missing. -/
private def filesWithout : FileTree := ⟨[([[99]], .file capturedBefore.encode)], []⟩

/-- The binary is there again. -/
private def filesAgain : FileTree :=
  ⟨[([[99]], .file capturedBefore.encode), ([[112]], .file [1])], []⟩

private def capturedAgain : RichCapture := ⟨Digest.ofBytes [1], 7, .ofListFirst [(0, 2), (8, 6)]⟩

/-- What is at 4 is executed before a finish that does not find the binary. -/
private def missed : FinishCall := ⟨[.record 0 ⟨4, 4⟩], ⟨filesWithout, []⟩, .error (.io .missing)⟩

/-- What is at 8 is executed before a finish that does. -/
private def found : FinishCall := ⟨[.record 0 ⟨8, 6⟩], ⟨filesAgain, []⟩, .ok capturedAgain⟩

private theorem output_again {t : FileTree} (ht : t = filesWithout ∨ t = filesAgain) :
    t.fileAt? ⟨[99]⟩ = some [[99]] ∧ RichCapture.stored ⟨[99]⟩ t = .ok capturedBefore
      ∧ t.nodeAt? ⟨[99]⟩ = some (.file capturedBefore.encode) := by
  have hfile : t.find? [[99]] = some (.file capturedBefore.encode) := by
    rcases ht with rfl | rfl <;> rfl
  have hloc : t.fileAt? ⟨[99]⟩ = some [[99]] := by
    rcases ht with rfl | rfl <;>
      exact FileTree.fileAt?_name rfl rfl rfl (by decide) (Or.inr ⟨_, rfl⟩)
  have hfits : (Text.Utf8.encode capturedBefore.digest).length ≤ RichCapture.maxDigest :=
    Digest.fits_ofBytes [1]
  exact ⟨hloc, RichCapture.stored_of_fileAt? hloc hfile hfits (by decide),
    FileTree.nodeAt?_of_fileAt? hloc hfile⟩

private theorem contents_without : contentsAt ⟨[112]⟩ filesWithout = .error .missing := by
  have hloc : filesWithout.fileAt? ⟨[112]⟩ = some [[112]] :=
    FileTree.fileAt?_name rfl rfl rfl (by decide) (Or.inl rfl)
  rw [contentsAt, sourceAt, FileTree.locate_of_absent hloc rfl]
  rfl

private theorem contents_again : contentsAt ⟨[112]⟩ filesAgain = .ok [1] := by
  have hloc : filesAgain.fileAt? ⟨[112]⟩ = some [[112]] :=
    FileTree.fileAt?_name rfl rfl rfl (by decide) (Or.inr ⟨_, rfl⟩)
  rw [contentsAt, sourceAt, FileTree.locate_of_fileAt? hloc rfl]
  rfl

private theorem meets_again : ∀ c ∈ [missed] ++ [found], Meets configAgain [1] c.host := by
  have hreads : ∀ {t bytes}, Job.readAll ⟨[112]⟩ ⟨t, []⟩ = .ok bytes ⟨t, []⟩ →
      contentsAt ⟨[112]⟩ t = .ok bytes := fun hread => ((answers_readAll _).eq_ok_iff.1 hread).1
  intro c hc
  rcases List.mem_pair.1 hc with rfl | rfl
  · refine ⟨fun bytes hread => ?_, nofun⟩
    exact nomatch contents_without.symm.trans (hreads hread)
  · refine ⟨fun bytes hread => ?_, nofun⟩
    exact (Except.ok.inj (contents_again.symm.trans (hreads hread))).symm

private theorem finishRun_again :
    ∃ r h, FinishRun configAgain ⟨filesWithout, []⟩ ([missed] ++ [found]) r h := by
  obtain ⟨-, -, hnode⟩ := output_again (Or.inl rfl)
  obtain ⟨hloc, hstored, hnode'⟩ := output_again (Or.inr rfl)
  -- the first finish takes out what is at 4, and fails
  have hlost : ∀ table events, store configAgain table ⟨filesWithout, events⟩
      = .error (.io .missing) ⟨filesWithout, events⟩ := by
    intro table events
    have hdigest : digestAt ⟨[112]⟩ filesWithout = .error .missing := by
      rw [digestAt, contents_without]
      rfl
    exact bind_of_error (mergeRun_of_digestAt_error hdigest)
  obtain ⟨events, hfails⟩ := finish_of_attempt (ε := Empty)
    ((Ongoing.start configAgain).run missed.steps []).1.session
    ⟨filesWithout, ((Ongoing.start configAgain).run missed.steps []).2⟩
  have hfirst : FinishRun configAgain ⟨filesWithout, []⟩ [missed] _ ⟨filesWithout, events⟩ :=
    .call .start rfl rfl (hfails (attempt_of_error (hlost _ _)))
  -- the second one succeeds, and takes out only what is at 8
  have hstore : ∀ events, ∃ h', store configAgain (.ofListFirst [(8, 6)]) ⟨filesAgain, events⟩
      = .ok capturedAgain h' := by
    have hdigest : digestAt ⟨[112]⟩ filesAgain = .ok (Digest.ofBytes [1]) :=
      digestAt_eq_ok_iff.2 ⟨[1], contents_again, rfl⟩
    have hmade : mergedAt ⟨[99]⟩ ⟨[112]⟩ (.ofListFirst [(8, 6)]) (Digest.ofBytes [1]) filesAgain
        = .ok capturedAgain := by
      have hsame : capturedBefore.digest = Digest.ofBytes [1] := rfl
      rw [mergedAt, RichCapture.ofBuild?_of_stored hstored, if_pos hsame]
      rfl
    intro events
    refine store_of_fileAt? hdigest hmade (Digest.fits_ofBytes [1]) hloc fun legacy hmem => ?_
    cases hmem
  obtain ⟨events', hsucceeds⟩ := finish_of_attempt (ε := Empty) _ ⟨filesAgain, _⟩
  obtain ⟨h', hok⟩ := hstore events'
  exact ⟨_, h', hfirst.call (hnode'.trans hnode.symm) rfl (hsucceeds (attempt_of_ok hok))⟩

private theorem device_again : filesWithout.nodeAt? ⟨[99]⟩ ≠ some .nullDevice := by
  obtain ⟨-, -, hnode⟩ := output_again (Or.inl rfl)
  rw [hnode]
  exact nofun

private theorem holds_again {o : Int64} : Holds configAgain [1] ⟨filesWithout, []⟩ o
    ↔ capturedBefore.table.contains o = true := by
  obtain ⟨-, hstored, -⟩ := output_again (Or.inl rfl)
  have hsame : capturedBefore.digest = Digest.ofBytes [1] := rfl
  show (∃ c, RichCapture.ofBuild? filesWithout ⟨[99]⟩ (Digest.ofBytes [1]) = some c ∧ _) ↔ _
  rw [RichCapture.ofBuild?_of_stored hstored, if_pos hsame]
  simp

private theorem room_again : ∃ o, ¬ Holds configAgain [1] ⟨filesWithout, []⟩ o
    ∧ ¬ Merged configAgain ([missed] ++ [found]) o := by
  refine ⟨1, fun hholds => absurd (holds_again.1 hholds) (by decide), ?_⟩
  rintro ⟨e, he, -, entry, hentry, hoffset⟩
  -- what is at 1 was not executed
  rcases List.mem_pair.1 he with rfl | rfl
  · rw [List.mem_singleton.1 hentry] at hoffset
    exact absurd hoffset (by decide)
  · rw [List.mem_singleton.1 hentry] at hoffset
    exact absurd hoffset (by decide)

/-- The capture has what was stored at first and what is at 8. -/
theorem capture_of_finishes_missing_binary : ∃ r h,
    FinishRun configAgain ⟨filesWithout, []⟩ ([missed] ++ [found]) r h
    ∧ RichCapture.load ⟨[99]⟩ h = .ok capturedAgain h
    ∧ Merged configAgain ([missed] ++ [found]) 8 := by
  obtain ⟨r, h, hrun⟩ := finishRun_again
  obtain ⟨hload, hcontains, -⟩ :=
    capture_of_finishes hrun rfl device_again meets_again room_again
  have height : capturedAgain.table.contains 8 = true := by decide
  refine ⟨r, h, hrun, hload, ((hcontains 8).1 height).resolve_left fun hholds => ?_⟩
  exact absurd (holds_again.1 hholds) (by decide)

/-- What a finish took that did not find the binary is in no capture, though a later finish
    succeeds. -/
theorem finish_after_missing_binary : ∃ calls last capture r h,
    FinishRun configAgain ⟨filesWithout, []⟩ (calls ++ [last]) r h
    ∧ (∀ c ∈ calls ++ [last], Meets configAgain [1] c.host)
    ∧ last.answer = .ok capture ∧ RichCapture.load configAgain.output h = .ok capture h
    ∧ ∃ o, (∃ e ∈ taken [] (calls ++ [last]), e.2.Has o) ∧ ¬ capture.table.contains o = true := by
  obtain ⟨r, h, hrun⟩ := finishRun_again
  have hkeeps := keeps hrun device_again meets_again room_again
  obtain ⟨-, hstored⟩ := hkeeps.given found rfl capturedAgain rfl
  have hload := (RichCapture.answers_load configAgain.output).eq_ok_iff.2 ⟨hstored, rfl⟩
  have hexecuted : (historyOf [] missed.steps).Has 4 := ⟨_, List.mem_singleton_self _, rfl⟩
  exact ⟨[missed], found, capturedAgain, r, h, hrun, meets_again, rfl, hload,
    4, ⟨_, List.mem_cons_self, hexecuted⟩, by decide⟩

end ExecTruth.Session
