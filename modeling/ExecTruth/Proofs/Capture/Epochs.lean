import ExecTruth.Proofs.Capture.Merges
import Mathlib.Data.List.DropRight

/-! # Epochs — what a sequence of merges into one file adds up to

    Merges through one path, with nothing else changing what the path leads to, fall
    into epochs: the longest stretches of merges with one digest.  Within an epoch
    every merge takes over what the one before it left, and with another digest all of
    it is dropped for good.  So a merge gives the union of the tables of its epoch so
    far, in which the earliest contributor of an offset gives its length, and the load
    base that the epoch began with (`merged_of_epoch`).  The capture that is there at
    first counts as the earliest contributor of the first epoch, if it has its digest.

    The induction is on the run of merges; what it carries along is what a next merge
    would find there, with any digest (`Leaves`). -/

namespace ExecTruth

open Job RichCapture

/-- A merge that was made: the host it met, what it was given and what it gave. -/
structure MergeCall where
  host : Host
  binary : Path
  table : InstructionTable
  digest : String
  merged : RichCapture

/-- Merges made through a path one after the other from a host on.  In between, what
    the path leads to stays as it is, and anything else may change. -/
inductive MergeRun (p : Path) (start : Host) : List MergeCall → Host → Prop
  | start : MergeRun p start [] start
  | call {calls : List MergeCall} {h h' : Host} {c : MergeCall}
      (before : MergeRun p start calls h)
      (same : c.host.files.nodeAt? p = h.files.nodeAt? p)
      (merge : mergeBuild p c.binary c.table c.digest c.host = .ok c.merged h') :
      MergeRun p start (calls ++ [c]) h'

namespace MergeRun

variable {p : Path} {start h h' : Host} {calls : List MergeCall} {call : MergeCall}

/-! ## Epochs and contributors -/

/-- The merges with a digest behind the last one with another digest. -/
def epoch (digest : String) (calls : List MergeCall) : List MergeCall :=
  calls.rtakeWhile fun c => c.digest = digest

/-- The capture that is there at first, if it is of the epoch: it has the digest, and so
    have all merges. -/
def inherited (p : Path) (start : Host) (digest : String) (calls : List MergeCall) :
    Option RichCapture :=
  if ∀ c ∈ calls, c.digest = digest then ofBuild? start.files p digest else none

/-- The tables that contribute to an epoch, earliest first. -/
def contributors (p : Path) (start : Host) (digest : String) (calls : List MergeCall) :
    List InstructionTable :=
  (inherited p start digest calls).toList.map (·.table) ++ (epoch digest calls).map (·.table)

/-- The load base that an epoch begins with: that of the capture that is there at
    first, or else that of the first binary as its merge met it. -/
def BeginsWith (p : Path) (start : Host) (digest : String) (calls : List MergeCall)
    (base : Int64) : Prop :=
  match inherited p start digest calls with
  | some initial => base = initial.base
  | none => ∃ first rest, epoch digest calls = first :: rest
      ∧ loadBaseOf first.binary first.host = .ok base first.host

/-- A further merge with the digest of an epoch goes on with it. -/
theorem epoch_append_same :
    epoch call.digest (calls ++ [call]) = epoch call.digest calls ++ [call] :=
  List.rtakeWhile_concat_pos _ _ _ (decide_eq_true rfl)

/-- A merge with another digest ends every epoch before it. -/
theorem epoch_append_other {digest : String} (h : call.digest ≠ digest) :
    epoch digest (calls ++ [call]) = [] :=
  List.rtakeWhile_concat_neg _ _ _ (by simpa using h)

/-- What an epoch inherits does not change as it goes on. -/
theorem inherited_append_same :
    inherited p start call.digest (calls ++ [call]) = inherited p start call.digest calls := by
  rw [inherited, inherited]
  simp only [List.forall_mem_append, List.forall_mem_singleton, and_true]

/-- Behind a merge with another digest nothing is inherited. -/
theorem inherited_append_other {digest : String} (h : call.digest ≠ digest) :
    inherited p start digest (calls ++ [call]) = none :=
  if_neg fun hall => h (hall call (by simp))

/-- As an epoch goes on, its tables get one more at the end. -/
theorem contributors_append_same : contributors p start call.digest (calls ++ [call])
    = contributors p start call.digest calls ++ [call.table] := by
  rw [contributors, inherited_append_same, epoch_append_same, List.map_append, ← List.append_assoc]
  rfl

/-! ## One merge -/

/-- A capture is what an epoch adds up to. -/
structure AddsUp (p : Path) (start : Host) (digest : String) (calls : List MergeCall)
    (c : RichCapture) : Prop where
  find? : ∀ o, c.table.find? o = (contributors p start digest calls).findSome? (·.find? o)
  base : BeginsWith p start digest calls c.base

/-- What a host leaves for a next merge, with any digest: what the epoch of that digest
    adds up to, if there is one. -/
structure Leaves (p : Path) (start : Host) (calls : List MergeCall) (h : Host) : Prop where
  device : h.files.nodeAt? p ≠ some .nullDevice
  found : ∀ {digest c}, ofBuild? h.files p digest = some c → AddsUp p start digest calls c
  nothing : ∀ {digest}, ofBuild? h.files p digest = none →
    inherited p start digest calls = none ∧ epoch digest calls = []

/-- Before the first merge, that is the capture that is there at first. -/
theorem leaves_start (hdevice : start.files.nodeAt? p ≠ some .nullDevice) :
    Leaves p start [] start := by
  have hinherited : ∀ digest, inherited p start digest [] = ofBuild? start.files p digest :=
    fun digest => if_pos (by simp)
  refine ⟨hdevice, fun {digest c} hc => ⟨fun o => ?_, ?_⟩, fun hc => ⟨?_, rfl⟩⟩
  · rw [contributors, hinherited, hc]
    simp [epoch]
  · rw [BeginsWith, hinherited, hc]
  · rw [hinherited, hc]

/-- A merge adds its table to the epoch that it finds, or begins one. -/
theorem Leaves.addsUp (hleaves : Leaves p start calls h)
    (hsame : call.host.files.nodeAt? p = h.files.nodeAt? p)
    (hmerge : mergeBuild p call.binary call.table call.digest call.host = .ok call.merged h') :
    AddsUp p start call.digest (calls ++ [call]) call.merged := by
  obtain ⟨hmade, -⟩ := mergeBuild_ok hmerge
  obtain ⟨prior, hbuild, hmerged⟩ | ⟨hbuild, base, hlook, hmerged⟩ := mergedAt_ok hmade
  · rw [ofBuild?_congr hsame] at hbuild
    have hadds := hleaves.found hbuild
    refine ⟨fun o => ?_, ?_⟩
    · -- the prior table overrides: it is that of the earlier contributors
      rw [hmerged, SortedMap.find?_overriding, hadds.find?, contributors_append_same,
        List.findSome?_append, List.findSome?_singleton]
    · -- the prior base stays: the epoch goes on from where it began
      have hbegin := hadds.base
      rw [BeginsWith] at hbegin ⊢
      rw [inherited_append_same, epoch_append_same, hmerged]
      cases hinherited : inherited p start call.digest calls with
      | some initial => rwa [hinherited] at hbegin
      | none =>
          rw [hinherited] at hbegin
          obtain ⟨first, rest, hepoch, hfirst⟩ := hbegin
          exact ⟨first, rest ++ [call], by rw [hepoch]; rfl, hfirst⟩
  · rw [ofBuild?_congr hsame] at hbuild
    obtain ⟨hinherited, hepoch⟩ := hleaves.nothing hbuild
    refine ⟨fun o => ?_, ?_⟩
    · -- nobody has contributed before
      rw [hmerged, contributors_append_same, contributors, hinherited, hepoch]
      simp
    · rw [BeginsWith, inherited_append_same, hinherited, epoch_append_same, hepoch, hmerged]
      exact ⟨call, [], rfl, (answers_loadBaseOf call.binary).eq_ok_iff.2 ⟨hlook, rfl⟩⟩

/-- **STEP**.  What a merge gives, it leaves for the next one with the same digest; for
    any other digest it leaves nothing. -/
theorem Leaves.next (hleaves : Leaves p start calls h)
    (hsame : call.host.files.nodeAt? p = h.files.nodeAt? p)
    (hmerge : mergeBuild p call.binary call.table call.digest call.host = .ok call.merged h')
    (hcount : call.merged.Countable) : Leaves p start (calls ++ [call]) h' := by
  have hadds := hleaves.addsUp hsame hmerge
  obtain ⟨hmade, hsaved⟩ := mergeBuild_ok hmerge
  have hdigest := digest_of_mergedAt hmade
  obtain ⟨hnode, hstored⟩ := hsaved.stored_eq (hsame ▸ hleaves.device) hcount
  refine ⟨by rw [hnode]; exact nofun, fun {digest c} hc => ?_, fun {digest} hc => ?_⟩
  · -- what is found next is what was merged last
    rw [ofBuild?_of_stored hstored, hdigest] at hc
    split at hc
    · next heq => cases hc; exact heq ▸ hadds
    · exact nomatch hc
  · rw [ofBuild?_of_stored hstored, hdigest] at hc
    split at hc
    · exact nomatch hc
    · next hne => exact ⟨inherited_append_other hne, epoch_append_other hne⟩

/-! ## All merges -/

/-- **RUN**.  The same of all merges that were made. -/
theorem leaves (run : MergeRun p start calls h)
    (hdevice : start.files.nodeAt? p ≠ some .nullDevice)
    (hcount : ∀ c ∈ calls, c.merged.Countable) : Leaves p start calls h := by
  induction run with
  | start => exact leaves_start hdevice
  | call before same merge ih =>
      exact (ih fun c hc => hcount c (by simp [hc])).next same merge (hcount _ (by simp))

/-- The last merge was made where the ones before it had ended. -/
theorem of_concat (run : MergeRun p start (calls ++ [call]) h') :
    ∃ h, MergeRun p start calls h ∧ call.host.files.nodeAt? p = h.files.nodeAt? p
      ∧ mergeBuild p call.binary call.table call.digest call.host = .ok call.merged h' := by
  -- the index has to be a variable for the case analysis
  generalize hall : calls ++ [call] = all at run
  cases run with
  | start => exact absurd hall (by simp)
  | call before same merge =>
      obtain ⟨rfl, hcall⟩ := List.append_inj' hall rfl
      cases hcall
      exact ⟨_, before, same, merge⟩

/-- **EPOCHS**.  After any sequence of merges into one file, from any content of it on, the
    last capture has the last digest, the offsets of all contributors to its epoch, each
    with the length of the earliest one, and the load base that the epoch began with; and
    it is read back.  The null device is no such file: it keeps nothing. -/
theorem merged_of_epoch {last : MergeCall} {finish : Host}
    (run : MergeRun p start (calls ++ [last]) finish)
    (hdevice : start.files.nodeAt? p ≠ some .nullDevice)
    (hcount : ∀ c ∈ calls ++ [last], c.merged.Countable) :
    last.merged.digest = last.digest
    ∧ (∀ o, last.merged.table.contains o = true
        ↔ ∃ t ∈ contributors p start last.digest (calls ++ [last]), t.contains o = true)
    ∧ (∀ o, last.merged.table.find? o
        = (contributors p start last.digest (calls ++ [last])).findSome? (·.find? o))
    ∧ BeginsWith p start last.digest (calls ++ [last]) last.merged.base
    ∧ RichCapture.load p finish = .ok last.merged finish := by
  -- the last merge is made into what all before it have left
  obtain ⟨h, before, same, merge⟩ := run.of_concat
  have hleaves := before.leaves hdevice fun c hc => hcount c (by simp [hc])
  have hadds := hleaves.addsUp same merge
  obtain ⟨hmade, hsaved⟩ := mergeBuild_ok merge
  obtain ⟨-, hstored⟩ := hsaved.stored_eq (same ▸ hleaves.device) (hcount last (by simp))
  refine ⟨digest_of_mergedAt hmade, fun o => ?_, hadds.find?, hadds.base,
    (answers_load p).eq_ok_iff.2 ⟨hstored, rfl⟩⟩
  simp only [SortedMap.contains, hadds.find?, List.isSome_findSome?, List.any_eq_true]

/-! ## A run of three merges -/

/-- A program of two headers: that of the file, and that of a section of code, which is
    at 0x40 in the file and at 0x1000 in memory. -/
private def program : List UInt8 :=
  Elf.magic ++ [2, 1, 1] ++ List.replicate 33 0 ++ Word.toLittle 8 64 ++ List.replicate 10 0
    ++ Word.toLittle 2 64 ++ [1, 0, 0, 0] ++ List.replicate 4 0 ++ [1, 0, 0, 0]
    ++ Word.toLittle 8 6 ++ Word.toLittle 8 0x1000 ++ Word.toLittle 8 0x40 ++ List.replicate 32 0

/-- A capture file `c` and a program `p`. -/
private def filesWith (prior : RichCapture) : FileTree :=
  ⟨[([[99]], .file prior.encode), ([[112]], .file program)], []⟩

private theorem fileAt?_filesWith (prior : RichCapture) {n : List UInt8}
    (hn : n = [99] ∨ n = [112]) : (filesWith prior).fileAt? ⟨n⟩ = some [n] := by
  rcases hn with rfl | rfl <;>
    exact FileTree.fileAt?_name rfl rfl rfl (by decide) (Or.inr ⟨_, rfl⟩)

private theorem nodeAt?_filesWith (prior : RichCapture) :
    (filesWith prior).nodeAt? ⟨[99]⟩ = some (.file prior.encode) :=
  FileTree.nodeAt?_of_fileAt? (fileAt?_filesWith prior (Or.inl rfl)) rfl

private theorem loadBaseAt_filesWith (prior : RichCapture) :
    loadBaseAt ⟨[112]⟩ (filesWith prior) = .ok 4032 := by
  have hprogram : (filesWith prior).find? [[112]] = some (.file program) := rfl
  rw [loadBaseAt, FileTree.locate_of_fileAt? (fileAt?_filesWith prior (Or.inr rfl)) hprogram]
  decide +kernel

/-- A merge of that program into that file, where a capture is stored. -/
private def callWith (prior : RichCapture) (digest : String) (table : InstructionTable)
    (merged : RichCapture) : MergeCall :=
  ⟨⟨filesWith prior, []⟩, ⟨[112]⟩, table, digest, merged⟩

private theorem concat_callWith {prior merged : RichCapture} {digest : String}
    {table : InstructionTable} {events : List Log.Event}
    (run : MergeRun ⟨[99]⟩ start calls ⟨filesWith prior, events⟩)
    (hfits : (Text.Utf8.encode prior.digest).length ≤ maxDigest
      ∧ (Text.Utf8.encode merged.digest).length ≤ maxDigest) (hcount : prior.Countable)
    (hmerged : merged = if prior.digest = digest
      then ⟨digest, prior.base, prior.table.overriding table⟩ else ⟨digest, 4032, table⟩) :
    ∃ events', MergeRun ⟨[99]⟩ start (calls ++ [callWith prior digest table merged])
      ⟨filesWith merged, events'⟩ := by
  have hloc := fileAt?_filesWith prior (Or.inl rfl)
  have hmade : mergedAt ⟨[99]⟩ ⟨[112]⟩ table digest (filesWith prior) = .ok merged := by
    rw [mergedAt, ofBuild?_of_stored (stored_of_fileAt? hloc rfl hfits.1 hcount), hmerged,
      loadBaseAt_filesWith]
    -- a merge of the same build joins what is there; one of another starts anew, at the base told
    by_cases hsame : prior.digest = digest
    · rw [if_pos hsame, if_pos hsame]
    · rw [if_neg hsame, if_neg hsame]
      rfl
  obtain ⟨events', hmerge⟩ := mergeBuild_of_fileAt? (h := ⟨filesWith prior, []⟩) hloc hmade hfits.2
  exact ⟨events', run.call rfl hmerge⟩

/-- The first merge joins the capture that is there.  The other two are of another build,
    so nothing of it is left, and the load base is that of the program. -/
theorem merged_of_epoch_rebuilt :
    let prior : RichCapture := ⟨"a", 7, .ofListFirst [(0, 2)]⟩
    let joined : RichCapture := ⟨"a", 7, .ofListFirst [(0, 2), (4, 4)]⟩
    let rebuilt : RichCapture := ⟨"b", 4032, .ofListFirst [(4, 3)]⟩
    let last : RichCapture := ⟨"b", 4032, .ofListFirst [(4, 3), (8, 5)]⟩
    let calls : List MergeCall :=
      [callWith prior "a" (.ofListFirst [(0, 1), (4, 4)]) joined,
       callWith joined "b" (.ofListFirst [(4, 3)]) rebuilt]
    ∃ finish,
      MergeRun ⟨[99]⟩ ⟨filesWith prior, []⟩
        (calls ++ [callWith rebuilt "b" (.ofListFirst [(4, 1), (8, 5)]) last]) finish
      ∧ RichCapture.load ⟨[99]⟩ finish = .ok last finish := by
  intro prior joined rebuilt last calls
  obtain ⟨_, first⟩ : ∃ events, MergeRun ⟨[99]⟩ ⟨filesWith prior, []⟩
      [callWith prior "a" (.ofListFirst [(0, 1), (4, 4)]) joined] ⟨filesWith joined, events⟩ :=
    concat_callWith .start (by decide) (by decide) (by decide)
  obtain ⟨_, second⟩ : ∃ events, MergeRun ⟨[99]⟩ ⟨filesWith prior, []⟩ calls
      ⟨filesWith rebuilt, events⟩ :=
    concat_callWith first (by decide) (by decide) (by decide)
  obtain ⟨_, third⟩ : ∃ events, MergeRun ⟨[99]⟩ ⟨filesWith prior, []⟩
      (calls ++ [callWith rebuilt "b" (.ofListFirst [(4, 1), (8, 5)]) last])
      ⟨filesWith last, events⟩ :=
    concat_callWith second (by decide) (by decide) (by decide)
  have hdevice : (filesWith prior).nodeAt? ⟨[99]⟩ ≠ some .nullDevice := by
    rw [nodeAt?_filesWith]
    exact nofun
  exact ⟨_, third, (merged_of_epoch third hdevice (by decide)).2.2.2.2⟩

end MergeRun

end ExecTruth
