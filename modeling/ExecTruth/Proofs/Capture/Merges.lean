import ExecTruth.Capture.Merge
import ExecTruth.Proofs.Capture.Stored

/-! # Merges — what a merge finds, what it makes and what it leaves

    A merge looks for a capture of the same build first, and at the binary only if
    there is none; from that it makes a capture without touching a file (`mergedAt`),
    and only then it writes (`mergeBuild_eq`).  So a merge that succeeds has saved what
    it made (`mergeBuild_ok`), and it does succeed where there is a file to be filled
    (`mergeBuild_of_fileAt?`). -/

namespace ExecTruth

open Job

/-! ## What there is to merge with -/

/-- The load base that the binary at a path tells, or why it tells none. -/
def loadBaseAt (p : Path) (t : FileTree) : Except LoadBaseFault Int64 :=
  (t.locate p >>= mapped).mapError .io >>= loadBase

theorem answers_loadBaseOf (p : Path) : (loadBaseOf p).Answers (loadBaseAt p) :=
  ((answers_mapFile p).wrap LoadBaseFault.io).bind fun bytes => answers_ofExcept (loadBase bytes)

/-- The capture that an earlier capture has to give. -/
def EarlierCapture.capture? : EarlierCapture → Option RichCapture
  | .sameBuild c => some c
  | .nothing | .otherBuild _ => none

/-- A merge looks at the capture of the same build, and reports if there was another. -/
theorem EarlierCapture.load_eq {ε : Type} (p : Path) (digest : String) (h : Host) :
    ∃ earlier events, (EarlierCapture.load p digest : Job ε EarlierCapture) h
        = .ok earlier { h with events := events }
      ∧ earlier.capture? = RichCapture.ofBuild? h.files p digest := by
  rw [EarlierCapture.load, RichCapture.ofBuild?, bind_of_ok (files_apply h), ite_run]
  by_cases hreach : h.files.reaches p = true
  · rw [if_neg (by simp [hreach]), bind_of_ok ((RichCapture.answers_load p).attempt h)]
    cases RichCapture.stored p h.files with
    | error fault => exact ⟨.nothing, _, rfl, rfl⟩
    | ok c =>
        dsimp only
        rw [ite_run]
        split
        · exact ⟨.sameBuild c, h.events, rfl, rfl⟩
        · exact ⟨.otherBuild c.digest, _, rfl, rfl⟩
  · -- nothing is looked for where the path leads nowhere, and nothing is stored there
    refine ⟨.nothing, h.events, by rw [if_pos (by simp [hreach])]; rfl, ?_⟩
    rw [FileTree.reaches] at hreach
    rw [RichCapture.stored, sourceAt]
    cases hloc : h.files.locate p with
    | error e => rfl
    | ok place => rw [hloc] at hreach; exact absurd rfl hreach

/-! ## What a merge makes -/

/-- The capture that a merge of a table makes, or why it makes none: it takes over the
    capture of the same build, or the load base of the binary if there is none. -/
def mergedAt (p binary : Path) (table : InstructionTable) (digest : String) (t : FileTree) :
    Except MergeFault RichCapture :=
  match RichCapture.ofBuild? t p digest with
  | some prior => .ok ⟨digest, prior.base, prior.table.overriding table⟩
  | none => (loadBaseAt binary t).mapError .loadBase >>= fun base => .ok ⟨digest, base, table⟩

section Made

variable {p binary : Path} {table : InstructionTable} {digest : String} {t : FileTree}
  {c : RichCapture}

/-- What a merge makes is made of the capture of the same build, or else of the binary. -/
theorem mergedAt_ok (hmade : mergedAt p binary table digest t = .ok c) :
    (∃ prior, RichCapture.ofBuild? t p digest = some prior
      ∧ c = ⟨digest, prior.base, prior.table.overriding table⟩)
    ∨ RichCapture.ofBuild? t p digest = none
      ∧ ∃ base, loadBaseAt binary t = .ok base ∧ c = ⟨digest, base, table⟩ := by
  rw [mergedAt] at hmade
  cases hbuild : RichCapture.ofBuild? t p digest with
  | some prior =>
      rw [hbuild] at hmade
      exact Or.inl ⟨prior, rfl, (Except.ok.inj hmade).symm⟩
  | none =>
      rw [hbuild] at hmade
      cases hbase : loadBaseAt binary t with
      | ok base =>
          rw [hbase] at hmade
          exact Or.inr ⟨rfl, base, rfl, (Except.ok.inj hmade).symm⟩
      | error fault => rw [hbase] at hmade; exact nomatch hmade

/-- What a merge makes has the digest of the merge. -/
theorem digest_of_mergedAt (hmade : mergedAt p binary table digest t = .ok c) :
    c.digest = digest := by
  obtain ⟨prior, -, rfl⟩ | ⟨-, base, -, rfl⟩ := mergedAt_ok hmade
  · rfl
  · rfl

/-- What a merge makes has the length of an offset from the capture of the same build, or
    else from what is merged. -/
theorem find?_of_mergedAt (hmade : mergedAt p binary table digest t = .ok c) (o : Int64) :
    c.table.find? o
      = ((RichCapture.ofBuild? t p digest).bind (·.table.find? o)).or (table.find? o) := by
  obtain ⟨prior, hbuild, rfl⟩ | ⟨hbuild, base, -, rfl⟩ := mergedAt_ok hmade
  · rw [hbuild]
    exact SortedMap.find?_overriding prior.table table o
  · rw [hbuild]
    rfl

/-- What a merge makes has the offsets of the capture of the same build and of what is
    merged. -/
theorem contains_of_mergedAt (hmade : mergedAt p binary table digest t = .ok c) {o : Int64} :
    c.table.contains o = true
      ↔ (∃ prior, RichCapture.ofBuild? t p digest = some prior ∧ prior.table.contains o = true)
        ∨ table.contains o = true := by
  rw [SortedMap.contains, find?_of_mergedAt hmade, Option.isSome_or, Bool.or_eq_true]
  refine or_congr_left ?_
  cases RichCapture.ofBuild? t p digest with
  | none => simp
  | some prior => simp [SortedMap.contains]

/-- A merge makes a capture if there is one of the same build, or a load base. -/
theorem exists_mergedAt_iff : (∃ c, mergedAt p binary table digest t = .ok c)
    ↔ (∃ prior, RichCapture.ofBuild? t p digest = some prior)
      ∨ ∃ base, loadBaseAt binary t = .ok base := by
  constructor
  · rintro ⟨c, hmade⟩
    rcases mergedAt_ok hmade with ⟨prior, hbuild, -⟩ | ⟨-, base, hbase, -⟩
    · exact Or.inl ⟨prior, hbuild⟩
    · exact Or.inr ⟨base, hbase⟩
  · intro hmakes
    rw [mergedAt]
    cases hbuild : RichCapture.ofBuild? t p digest with
    | some prior => exact ⟨_, rfl⟩
    | none =>
        rcases hmakes with ⟨prior, hprior⟩ | ⟨base, hbase⟩
        · exact nomatch hbuild.symm.trans hprior
        · rw [hbase]
          exact ⟨_, rfl⟩

end Made

/-! ## What a merge does -/

/-- What a merge does with the capture that it made: it saves it, says so and gives it. -/
def concludeMerge (p : Path) (e : Log.Event) (c : RichCapture) : Job MergeFault RichCapture := do
  Job.wrap .capture (RichCapture.save p c)
  Job.log e
  return c

/-- A merge makes a capture without touching a file, and then saves it. -/
theorem mergeBuild_eq (p binary : Path) (table : InstructionTable) (digest : String) (h : Host) :
    ∃ (events : List Log.Event) (e : RichCapture → Log.Event),
      mergeBuild p binary table digest h
        = (Job.ofExcept (mergedAt p binary table digest h.files)
            >>= fun c => concludeMerge p (e c) c) { h with events := events } := by
  obtain ⟨earlier, events, hearlier, hcapture⟩ := EarlierCapture.load_eq p digest h
  -- the event of a merge is worded from the merged capture
  refine ⟨events, fun c => Log.event .info storePart "wrote capture"
    [("path", p.display), ("digest", digest), ("base_address", Word.hexOffset c.base),
     ("captured", toString table.size), ("total", toString c.table.size)], ?_⟩
  rw [mergeBuild, mergedAt, bind_of_ok hearlier, ← hcapture]
  cases earlier with
  | sameBuild prior => rfl
  | nothing | otherBuild other =>
      -- the binary is looked at here only
      refine (((answers_loadBaseOf binary).wrap MergeFault.loadBase).bind_apply _ _).trans ?_
      dsimp only
      cases loadBaseAt binary h.files <;> rfl

/-- A merge that succeeds has made the capture that it gives, and saved it. -/
theorem mergeBuild_ok {p binary : Path} {table : InstructionTable} {digest : String}
    {h h' : Host} {c : RichCapture} (hok : mergeBuild p binary table digest h = .ok c h') :
    mergedAt p binary table digest h.files = .ok c ∧ RichCapture.Saved p c h.files h'.files := by
  obtain ⟨events, e, heq⟩ := mergeBuild_eq p binary table digest h
  rw [heq] at hok
  obtain ⟨c', h₁, hanswer, hend⟩ := bind_eq_ok_iff.1 hok
  obtain ⟨hmade, rfl⟩ := (answers_ofExcept _).eq_ok_iff.1 hanswer
  obtain ⟨_, h₂, hsave, hrest⟩ := bind_eq_ok_iff.1 hend
  have hsaved := RichCapture.saved_of_save (wrap_eq_ok_iff.1 hsave)
  cases hrest
  exact ⟨hmade, hsaved⟩

/-- Where a path leads to a file, a merge succeeds if it makes a capture whose digest can
    be stored. -/
theorem mergeBuild_of_fileAt? {p binary : Path} {table : InstructionTable} {digest : String}
    {h : Host} {loc : Location} {c : RichCapture} (hloc : h.files.fileAt? p = some loc)
    (hmade : mergedAt p binary table digest h.files = .ok c)
    (hfits : (Text.Utf8.encode c.digest).length ≤ RichCapture.maxDigest) :
    ∃ events, mergeBuild p binary table digest h
      = .ok c ⟨h.files.put loc (.file c.encode), events⟩ := by
  obtain ⟨events, e, heq⟩ := mergeBuild_eq p binary table digest h
  have hsave : RichCapture.save p c { h with events := events }
      = .ok () ⟨h.files.put loc (.file c.encode), events⟩ := by
    refine (sendTo_of_fileAt? (h := { h with events := events }) hloc).trans ?_
    rw [RichCapture.emit_of_fits hfits]
    rfl
  refine ⟨events ++ [e c], ?_⟩
  rw [heq, hmade, bind_of_ok (ofExcept_ok c _), concludeMerge, bind_of_ok (wrap_eq_ok_iff.2 hsave)]
  rfl

/-! ## Merging a run -/

/-- The digest of what the path of a binary leads to, or why there is none. -/
def digestAt (binary : Path) (t : FileTree) : Except IoFault String :=
  contentsAt binary t >>= fun bytes => .ok (Digest.ofBytes bytes)

/-- A binary has a digest exactly where its contents can be read. -/
theorem digestAt_eq_ok_iff {binary : Path} {t : FileTree} {digest : String} :
    digestAt binary t = .ok digest
      ↔ ∃ bytes, contentsAt binary t = .ok bytes ∧ Digest.ofBytes bytes = digest := by
  rw [digestAt]
  cases contentsAt binary t with
  | error fault => exact iff_of_false nofun fun ⟨_, hbytes, _⟩ => nomatch hbytes
  | ok bytes =>
      constructor
      · intro hdigest
        exact ⟨bytes, rfl, Except.ok.inj hdigest⟩
      · rintro ⟨bytes, ⟨⟩, rfl⟩
        rfl

theorem answers_ofFile (binary : Path) : (Digest.ofFile binary).Answers (digestAt binary) :=
  (answers_readAll binary).bind fun bytes => answers_pure (Digest.ofBytes bytes)

/-- Merging a run is merging with the digest that the binary has. -/
theorem mergeRun_eq_ok_iff {p binary : Path} {table : InstructionTable} {h h' : Host}
    {c : RichCapture} : mergeRun p binary table h = .ok c h'
      ↔ ∃ digest, digestAt binary h.files = .ok digest
        ∧ mergeBuild p binary table digest h = .ok c h' := by
  rw [mergeRun, bind_eq_ok_iff]
  constructor
  · rintro ⟨digest, h₁, hdigest, hmerge⟩
    obtain ⟨hdigest, rfl⟩ := (answers_ofFile binary).eq_ok_iff.1 (wrap_eq_ok_iff.1 hdigest)
    exact ⟨digest, hdigest, hmerge⟩
  · rintro ⟨digest, hdigest, hmerge⟩
    exact ⟨digest, h, wrap_eq_ok_iff.2 ((answers_ofFile binary).eq_ok_iff.2 ⟨hdigest, rfl⟩), hmerge⟩

/-! ## Merging elsewhere and merging again -/

section Again

variable {p binary : Path} {table : InstructionTable} {digest : String} {t t' : FileTree}
  {c : RichCapture}

/-- Of the files, only the binary counts for its digest. -/
theorem digestAt_congr (same : t'.nodeAt? binary = t.nodeAt? binary)
    (hdigest : digestAt binary t = .ok digest) : digestAt binary t' = .ok digest := by
  rw [digestAt, contentsAt, sourceAt] at hdigest ⊢
  cases hlocate : t.locate binary with
  | error fault =>
      rw [hlocate] at hdigest
      cases hdigest
  | ok place =>
      obtain ⟨loc, node⟩ := place
      obtain ⟨loc', hlocate'⟩ := FileTree.locate_congr same hlocate
      rw [hlocate] at hdigest
      rw [hlocate']
      exact hdigest

/-- Only the binary's own node counts for its load base. -/
theorem loadBaseAt_congr {base : Int64} (same : t'.nodeAt? binary = t.nodeAt? binary)
    (hbase : loadBaseAt binary t = .ok base) : loadBaseAt binary t' = .ok base := by
  rw [loadBaseAt] at hbase ⊢
  cases hlocate : t.locate binary with
  | error fault =>
      rw [hlocate] at hbase
      exact nomatch hbase
  | ok place =>
      obtain ⟨loc, node⟩ := place
      obtain ⟨loc', hlocate'⟩ := FileTree.locate_congr same hlocate
      rw [hlocate] at hbase
      rw [hlocate']
      cases node <;> exact hbase

/-- Of the files, only the earlier capture and the binary count for what a merge makes. -/
theorem mergedAt_congr (same : t'.nodeAt? p = t.nodeAt? p)
    (hbinary : t'.nodeAt? binary = t.nodeAt? binary)
    (hmade : mergedAt p binary table digest t = .ok c) :
    mergedAt p binary table digest t' = .ok c := by
  rw [mergedAt, RichCapture.ofBuild?_congr same]
  obtain ⟨prior, hbuild, rfl⟩ | ⟨hbuild, base, hbase, rfl⟩ := mergedAt_ok hmade
  · rw [hbuild]
  · rw [hbuild, loadBaseAt_congr hbinary hbase]
    rfl

/-- What is merged later joins what was merged before, as if it had been merged with it. -/
theorem mergedAt_overriding (hmade : mergedAt p binary table digest t = .ok c)
    (later : InstructionTable) :
    mergedAt p binary (table.overriding later) digest t
      = .ok ⟨digest, c.base, c.table.overriding later⟩ := by
  rw [mergedAt]
  obtain ⟨prior, hbuild, rfl⟩ | ⟨hbuild, base, hbase, rfl⟩ := mergedAt_ok hmade
  · rw [hbuild, SortedMap.overriding_assoc]
  · rw [hbuild, hbase]
    rfl

/-- Tables with the same offsets are merged into captures with the same offsets, and with
    the same load base. -/
theorem mergedAt_same_offsets {table' : InstructionTable} {c' : RichCapture}
    (hmade : mergedAt p binary table digest t = .ok c)
    (hmade' : mergedAt p binary table' digest t = .ok c')
    (hsame : ∀ o, table.contains o = true ↔ table'.contains o = true) :
    c.base = c'.base ∧ ∀ o, c.table.contains o = true ↔ c'.table.contains o = true := by
  constructor
  · obtain ⟨prior, hbuild, rfl⟩ | ⟨hbuild, base, hbase, rfl⟩ := mergedAt_ok hmade <;>
      obtain ⟨prior', hbuild', rfl⟩ | ⟨hbuild', base', hbase', rfl⟩ := mergedAt_ok hmade'
    · -- of one tree, both merges find the same earlier capture or both the binary
      cases hbuild.symm.trans hbuild'
      rfl
    · exact nomatch hbuild.symm.trans hbuild'
    · exact nomatch hbuild.symm.trans hbuild'
    · cases hbase.symm.trans hbase'
      rfl
  · intro o
    rw [contains_of_mergedAt hmade, contains_of_mergedAt hmade', hsame]

end Again

end ExecTruth
