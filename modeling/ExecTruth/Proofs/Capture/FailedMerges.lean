import ExecTruth.Proofs.Capture.Merges
import ExecTruth.Proofs.Digest

/-! # Failed merges — what is left where a merge gives no capture

    A merge makes its capture before it touches a file, so whatever keeps it from making
    one changes nothing.  What keeps it from writing one changes nothing either, if the
    file cannot be opened.  But the file is opened, and emptied, before the digest is
    measured: a merge that fails because its digest is too long leaves an empty file
    behind, in the place of the capture that was there (`mergeBuild_of_long_digest`).
    That is the only failure that leaves anything (`files_of_failed_merge`).

    The digest of a binary is never that long, so merging a run changes nothing where it
    fails (`files_of_failed_mergeRun`).  Whether it fails does not depend on what there is
    to merge (`mergeRun_succeeds_iff`). -/

namespace ExecTruth

open Job

variable {p binary : Path} {table : InstructionTable} {digest : String} {h h' : Host}

namespace RichCapture

/-- Saving that fails changes nothing, unless it fails for the digest: then it has emptied
    the file. -/
theorem files_of_failed_save {c : RichCapture} {fault : CaptureFault}
    (hsave : save p c h = .error fault h') :
    ((∀ size, fault ≠ .digestTooLong size) → h'.files = h.files)
    ∧ ∀ size, fault = .digestTooLong size → size = (Text.Utf8.encode c.digest).length
      ∧ maxDigest < size ∧ h'.files = sent p [] h.files := by
  have hsend : sendTo p .ofIo c.emit h = .error fault h' := hsave
  have hfiles := files_of_sendTo_error hsend
  constructor
  · intro hother
    cases hloc : h.files.fileAt? p with
    | none => rw [hfiles, sent, hloc]
    | some loc =>
        -- a file that is there takes all bytes, so the fault is that of the capture
        rw [sendTo_of_fileAt? hloc, Emission.outcome] at hsend
        cases hfault : c.emit.fault with
        | none =>
            rw [hfault] at hsend
            cases hsend
        | some e =>
            rw [hfault] at hsend
            cases hsend
            exact absurd (emit_fault_eq_some hfault).1 (hother _)
  · rintro size rfl
    rcases fault_of_sendTo hsend with hfault | ⟨refusal, hrefusal⟩
    · obtain ⟨hsize, hlong, hbytes⟩ := emit_fault_eq_some hfault
      cases hsize
      rw [hbytes] at hfiles
      exact ⟨rfl, hlong, hfiles⟩
    · exact absurd hrefusal.symm (CaptureFault.ofIo_ne_digestTooLong refusal size)

end RichCapture

/-- What keeps a merge from making a capture is that there is no load base. -/
theorem loadBase_of_mergedAt {t : FileTree} {e : MergeFault}
    (hmade : mergedAt p binary table digest t = .error e) : ∃ fault, e = .loadBase fault := by
  rw [mergedAt] at hmade
  cases hbuild : RichCapture.ofBuild? t p digest with
  | some prior =>
      rw [hbuild] at hmade
      cases hmade
  | none =>
      rw [hbuild] at hmade
      cases hbase : loadBaseAt binary t with
      | ok base =>
          rw [hbase] at hmade
          cases hmade
      | error fault =>
          rw [hbase] at hmade
          exact ⟨fault, (Except.error.inj hmade).symm⟩

/-- A merge that fails has made no capture, or could not save the one that it made. -/
theorem mergeBuild_eq_error {e : MergeFault}
    (hfail : mergeBuild p binary table digest h = .error e h') :
    (mergedAt p binary table digest h.files = .error e ∧ h'.files = h.files)
    ∨ ∃ c fault h₁, mergedAt p binary table digest h.files = .ok c ∧ h₁.files = h.files
      ∧ RichCapture.save p c h₁ = .error fault h' ∧ e = .capture fault := by
  obtain ⟨events, event, heq⟩ := mergeBuild_eq p binary table digest h
  rw [heq] at hfail
  rcases bind_eq_error_iff.1 hfail with hmade | ⟨c, h₁, hmade, hconclude⟩
  · cases hr : mergedAt p binary table digest h.files with
    | ok c =>
        rw [hr] at hmade
        exact nomatch hmade
    | error fault =>
        rw [hr] at hmade
        cases hmade
        exact Or.inl ⟨rfl, rfl⟩
  · obtain ⟨hcapture, rfl⟩ := (answers_ofExcept _).eq_ok_iff.1 hmade
    rcases bind_eq_error_iff.1 hconclude with hwrap | ⟨_, h₂, -, hend⟩
    · obtain ⟨fault, hsave, rfl⟩ := wrap_eq_error_iff.1 hwrap
      exact Or.inr ⟨c, fault, { h with events := events }, hcapture, rfl, hsave, rfl⟩
    · -- reporting the merge does not fail
      exact nomatch hend

/-- **FAILED MERGES**.  A merge that fails leaves all files as they were, unless it fails
    because its digest is too long: then what is left is the file emptied. -/
theorem files_of_failed_merge {e : MergeFault}
    (hfail : mergeBuild p binary table digest h = .error e h') :
    ((∀ size, e ≠ .capture (.digestTooLong size)) → h'.files = h.files)
    ∧ ∀ size, e = .capture (.digestTooLong size) → size = (Text.Utf8.encode digest).length
      ∧ RichCapture.maxDigest < size ∧ h'.files = sent p [] h.files := by
  -- either no capture could be made and nothing was opened, or saving the one that was made failed
  rcases mergeBuild_eq_error hfail with ⟨hmade, hfiles⟩ | ⟨c, fault, h₁, hmade, hsame, hsave, rfl⟩
  · obtain ⟨fault, rfl⟩ := loadBase_of_mergedAt hmade
    exact ⟨fun _ => hfiles, fun size hsize => nomatch hsize⟩
  · obtain ⟨hother, hlong⟩ := RichCapture.files_of_failed_save hsave
    constructor
    · intro hne
      exact (hother fun size hsize => hne size (congrArg MergeFault.capture hsize)).trans hsame
    · intro size hsize
      have hdigest := digest_of_mergedAt hmade
      obtain ⟨hlength, hmax, hfiles⟩ := hlong size (MergeFault.capture.inj hsize)
      rw [hdigest] at hlength
      rw [hsame] at hfiles
      exact ⟨hlength, hmax, hfiles⟩

/-! ## Merging a run -/

/-- Merging a run fails where the binary cannot be read, or else as merging with its digest
    does. -/
theorem mergeRun_eq_error {e : MergeFault} (hfail : mergeRun p binary table h = .error e h') :
    (∃ fault, digestAt binary h.files = .error fault ∧ e = .io fault ∧ h' = h)
    ∨ ∃ digest, digestAt binary h.files = .ok digest
      ∧ mergeBuild p binary table digest h = .error e h' := by
  rw [mergeRun, ((answers_ofFile binary).wrap MergeFault.io).bind_apply] at hfail
  cases hdigest : digestAt binary h.files with
  | error fault =>
      rw [hdigest] at hfail
      cases hfail
      exact Or.inl ⟨fault, rfl, rfl, rfl⟩
  | ok digest =>
      rw [hdigest] at hfail
      exact Or.inr ⟨digest, rfl, hfail⟩

/-- The digest of a binary that was read fits the field it is written to. -/
theorem fits_of_digestAt {t : FileTree} (hdigest : digestAt binary t = .ok digest) :
    (Text.Utf8.encode digest).length ≤ RichCapture.maxDigest := by
  obtain ⟨bytes, -, rfl⟩ := digestAt_eq_ok_iff.1 hdigest
  exact Digest.fits_ofBytes bytes

/-- Merging a run changes nothing where it fails. -/
theorem files_of_failed_mergeRun {e : MergeFault}
    (hfail : mergeRun p binary table h = .error e h') : h'.files = h.files := by
  rcases mergeRun_eq_error hfail with ⟨fault, -, -, rfl⟩ | ⟨digest, hdigest, hbuild⟩
  · rfl
  · rcases mergeBuild_eq_error hbuild with ⟨-, hfiles⟩ | ⟨c, fault, h₁, hmade, hsame, hsave, rfl⟩
    · exact hfiles
    · obtain ⟨hother, hlong⟩ := RichCapture.files_of_failed_save hsave
      -- a save empties the file only for a long digest, and the digest of a binary is never long
      refine (hother fun size hsize => ?_).trans hsame
      obtain ⟨hlength, hmax, -⟩ := hlong size hsize
      have hfits := fits_of_digestAt hdigest
      rw [digest_of_mergedAt hmade] at hlength
      omega

/-- What it takes to merge a run: the binary can be read, a capture of it is stored or its
    load base told, and there is a file to write the merged capture to. -/
structure Mergeable (p binary : Path) (t : FileTree) : Prop where
  makes : ∃ digest, digestAt binary t = .ok digest
    ∧ ((∃ prior, RichCapture.ofBuild? t p digest = some prior)
      ∨ ∃ base, loadBaseAt binary t = .ok base)
  place : ∃ loc, t.fileAt? p = some loc

/-- Merging a run succeeds where it can, whatever there is to merge. -/
theorem mergeRun_succeeds_iff (hdevice : h.files.nodeAt? p ≠ some .nullDevice) :
    (∃ c h', mergeRun p binary table h = .ok c h') ↔ Mergeable p binary h.files := by
  constructor
  · rintro ⟨c, h', hrun⟩
    obtain ⟨digest, hdigest, hbuild⟩ := mergeRun_eq_ok_iff.1 hrun
    obtain ⟨hmade, hsaved⟩ := mergeBuild_ok hbuild
    refine ⟨⟨digest, hdigest, exists_mergedAt_iff.1 ⟨c, hmade⟩⟩, ?_⟩
    rcases hsaved.place with ⟨loc, hloc, -⟩ | ⟨hnode, -⟩
    · exact ⟨loc, hloc⟩
    · exact absurd hnode hdevice
  · rintro ⟨⟨digest, hdigest, hmakes⟩, loc, hloc⟩
    obtain ⟨c, hmade⟩ : ∃ c, mergedAt p binary table digest h.files = .ok c :=
      exists_mergedAt_iff.2 hmakes
    -- a digest that was computed fits, so saving cannot fail for its length
    have hfits := fits_of_digestAt hdigest
    rw [← digest_of_mergedAt hmade] at hfits
    obtain ⟨events, hbuild⟩ := mergeBuild_of_fileAt? hloc hmade hfits
    exact ⟨c, _, mergeRun_eq_ok_iff.2 ⟨digest, hdigest, hbuild⟩⟩

/-! ## Failures of either kind -/

/-- Where no capture can be made, the merge fails before it opens anything for writing. -/
theorem mergeBuild_of_mergedAt_error {e : MergeFault}
    (hmade : mergedAt p binary table digest h.files = .error e) :
    ∃ events, mergeBuild p binary table digest h = .error e { h with events := events } := by
  obtain ⟨events, event, heq⟩ := mergeBuild_eq p binary table digest h
  refine ⟨events, ?_⟩
  rw [heq, hmade]
  exact bind_of_error (ofExcept_error e _)

/-- A binary that cannot be read ends the merge of a run at once. -/
theorem mergeRun_of_digestAt_error {fault : IoFault}
    (hdigest : digestAt binary h.files = .error fault) :
    mergeRun p binary table h = .error (.io fault) h := by
  have hfile : Digest.ofFile binary h = .error fault h := by
    rw [answers_ofFile, hdigest]
    rfl
  exact bind_of_error (wrap_eq_error_iff.2 ⟨fault, hfile, rfl⟩)

/-- A merge with a digest that is too long empties the file that its path leads to, once the
    load base is known. -/
theorem mergeBuild_of_long_digest {loc : Location} {base : Int64}
    (hloc : h.files.fileAt? p = some loc) (hbase : loadBaseAt binary h.files = .ok base)
    (hlong : RichCapture.maxDigest < (Text.Utf8.encode digest).length) :
    ∃ events, mergeBuild p binary table digest h
      = .error (.capture (.digestTooLong (Text.Utf8.encode digest).length))
          ⟨h.files.put loc (.file []), events⟩ := by
  obtain ⟨c, hmade⟩ : ∃ c, mergedAt p binary table digest h.files = .ok c :=
    exists_mergedAt_iff.2 (Or.inr ⟨base, hbase⟩)
  have hdigest := digest_of_mergedAt hmade
  obtain ⟨events, event, heq⟩ := mergeBuild_eq p binary table digest h
  have hsave : RichCapture.save p c { h with events := events }
      = .error (.digestTooLong (Text.Utf8.encode digest).length)
          ⟨h.files.put loc (.file []), events⟩ := by
    refine (sendTo_of_fileAt? (h := { h with events := events }) hloc).trans ?_
    rw [RichCapture.emit_of_long_digest (hdigest ▸ hlong), hdigest]
    rfl
  refine ⟨events, ?_⟩
  rw [heq, hmade, bind_of_ok (ofExcept_ok c _)]
  exact bind_of_error (wrap_eq_error_iff.2 ⟨_, hsave, rfl⟩)

/-- A capture file `c`, and a binary `p`. -/
private def captureAnd (program : List UInt8) : FileTree :=
  ⟨[([[99]], .file (RichCapture.encode ⟨"a", 7, .ofListFirst [(0, 2)]⟩)),
    ([[112]], .file program)], []⟩

private theorem fileAt?_captureAnd (program : List UInt8) {n : List UInt8}
    (hn : n = [99] ∨ n = [112]) : (captureAnd program).fileAt? ⟨n⟩ = some [n] := by
  rcases hn with rfl | rfl <;>
    exact FileTree.fileAt?_name rfl rfl rfl (by decide) (Or.inr ⟨_, rfl⟩)

/-- Another build that is no program does no harm to the capture that is there. -/
theorem files_of_failed_merge_no_program : ∃ h',
    mergeBuild ⟨[99]⟩ ⟨[112]⟩ (.ofListFirst [(4, 4)]) "b" ⟨captureAnd [1], []⟩
      = .error (.loadBase (.headers .tooSmall)) h'
    ∧ (∀ size, MergeFault.loadBase (.headers .tooSmall) ≠ .capture (.digestTooLong size))
    ∧ h'.files = captureAnd [1] := by
  have hstored := RichCapture.stored_of_fileAt? (fileAt?_captureAnd [1] (Or.inl rfl))
    (c := ⟨"a", 7, .ofListFirst [(0, 2)]⟩) rfl (by decide) (by decide)
  have hlook : loadBaseAt ⟨[112]⟩ (captureAnd [1]) = .error (.headers .tooSmall) := by
    have hprogram : (captureAnd [1]).find? [[112]] = some (.file [1]) := rfl
    rw [loadBaseAt,
      FileTree.locate_of_fileAt? (fileAt?_captureAnd [1] (Or.inr rfl)) hprogram]
    rfl
  have hmade : mergedAt ⟨[99]⟩ ⟨[112]⟩ (.ofListFirst [(4, 4)]) "b" (captureAnd [1])
      = .error (.loadBase (.headers .tooSmall)) := by
    rw [mergedAt, RichCapture.ofBuild?_of_stored hstored, if_neg (by decide), hlook]
    rfl
  obtain ⟨events, hfail⟩ := mergeBuild_of_mergedAt_error (h := ⟨captureAnd [1], []⟩) hmade
  have hother : ∀ size, MergeFault.loadBase (.headers .tooSmall)
      ≠ .capture (.digestTooLong size) := by
    intro size heq
    cases heq
  exact ⟨_, hfail, hother, (files_of_failed_merge hfail).1 hother⟩

/-- The headers of a program with one section, which is code, at 0x34 in the file and at
    0x2000 in memory. -/
private def codeSection : List UInt8 :=
  Elf.magic ++ [1, 2, 1] ++ List.replicate 25 0 ++ Word.toBig 4 52 ++ List.replicate 12 0
    ++ Word.toBig 2 1 ++ List.replicate 2 0
    ++ Word.toBig 4 0 ++ Word.toBig 4 1 ++ Word.toBig 4 6 ++ Word.toBig 4 0x2000
    ++ Word.toBig 4 0x34 ++ List.replicate 20 0

/-- A merge that fails and leaves the file empty in the place of the capture that was there. -/
theorem merge_of_long_digest_empties : ∃ digest size h',
    (captureAnd codeSection).find? [[99]]
      = some (.file (RichCapture.encode ⟨"a", 7, .ofListFirst [(0, 2)]⟩))
    ∧ mergeBuild ⟨[99]⟩ ⟨[112]⟩ .empty digest ⟨captureAnd codeSection, []⟩
      = .error (.capture (.digestTooLong size)) h'
    ∧ h'.files.find? [[99]] = some (.file []) := by
  have hloc := fileAt?_captureAnd codeSection (Or.inl rfl)
  have hbase : loadBaseAt ⟨[112]⟩ (captureAnd codeSection) = .ok 0x1FCC := by
    have hprogram : (captureAnd codeSection).find? [[112]] = some (.file codeSection) := rfl
    rw [loadBaseAt,
      FileTree.locate_of_fileAt? (fileAt?_captureAnd codeSection (Or.inr rfl)) hprogram]
    rfl
  have hlong : RichCapture.maxDigest
      < (Text.Utf8.encode (String.ofList (List.replicate 65536 'a'))).length := by
    -- the length is counted by characters, as the bytes are too many to be written out
    have hone : ∀ c ∈ List.replicate 65536 'a', c.utf8Size = 1 := by
      intro c hc
      rw [List.eq_of_mem_replicate hc]
      rfl
    rw [Text.Utf8.length_encode_ofList hone, List.length_replicate]
    decide
  obtain ⟨events, hfail⟩ : ∃ events, mergeBuild _ _ .empty _ ⟨captureAnd codeSection, []⟩ = _ :=
    mergeBuild_of_long_digest hloc hbase hlong
  exact ⟨_, _, _, rfl, hfail, rfl⟩

end ExecTruth
