import ExecTruth.Proofs.AddressSpace.DeferredMaps
import ExecTruth.Proofs.AddressSpace.Lookups
import ExecTruth.Proofs.Recording.WholeRun
import ExecTruth.Proofs.Scoring.CountingLaws

/-! # Translations — live addresses that come back as static starts

    While a run goes on, live addresses are translated to instructions, and what was
    executed is recorded.  Translating reads the description of the address space and
    leaves the sets of the workers alone, so the sets still hold the history
    (`Traced.follows_run`), and every instruction that was told has its offset from a line
    of the binary (`Traced.Follows`).

    Let every such line be loaded at one base: its first address less its offset is the
    base, as words that wrap.  Then the offset of an instruction is its address less the
    base, also as wrapping words, and if the difference does not leave the range of an
    offset, the checked difference of an evaluation is the same (`toInt_offset_of_loaded`).
    So an evaluation with this base finds the instruction at its own live address
    (`verdict_of_translated`). -/

namespace ExecTruth

/-- Lines whose first addresses are their offsets at the load base give offsets that are
    addresses without it. -/
theorem toInt_offset_of_loaded {start offset vaddr : UInt64} {base : Int64}
    (hbase : start - offset = base.toUInt64)
    (hlow : Int64.minValue.toInt ≤ vaddr.toInt64.toInt - base.toInt)
    (hhigh : vaddr.toInt64.toInt - base.toInt ≤ Int64.maxValue.toInt) :
    (vaddr - start + offset).toInt64.toInt = vaddr.toInt64.toInt - base.toInt := by
  have hword : vaddr - start + offset = vaddr - base.toUInt64 := by
    rw [← hbase]
    grind
  have hwraps : (vaddr - start + offset).toInt64 = vaddr.toInt64 - base := by
    rw [hword, UInt64.toInt64_sub, Int64.toInt64_toUInt64 base]
  have hmin : Int64.minValue.toInt = -2 ^ 63 := rfl
  have hmax : Int64.maxValue.toInt = 2 ^ 63 - 1 := rfl
  rw [hwraps, Int64.toInt_sub]
  -- in the range, wrapping does nothing
  exact Int.bmod_eq_of_le (by omega) (by omega)

namespace Session

open Job

/-! ## Steps with translations -/

/-- What is done with a session while a program is traced. -/
inductive TracedStep where
  /-- An instruction of a length in bytes is about to be executed at an address. -/
  | translate (vaddr : UInt64) (length : Nat)
  /-- Workers are served. -/
  | work (step : Step)
  deriving DecidableEq

/-- A run with the instructions that its translations have told, by their addresses. -/
structure Traced where
  ongoing : Ongoing
  told : List (UInt64 × Instruction)

/-- What a step does for workers. -/
def TracedStep.work? : TracedStep → Option Step
  | .translate _ _ => none
  | .work step => some step

/-- The steps without the translations. -/
def workOf (steps : List TracedStep) : List Step := steps.filterMap TracedStep.work?

/-- What is recorded does not touch the map of addresses. -/
theorem addresses_of_step (r : Ongoing) (s : Step) (events : List Log.Event) :
    (r.step s events).1.session.addresses = r.session.addresses := by
  cases s with
  | keep worker =>
      rcases heq : r.session.workers.setFor worker events with ⟨⟨id, ws⟩, events'⟩
      rw [Ongoing.step, setFor, bind_assoc, Logged.bind_of_eq heq]
      rfl
  | record worker i =>
      rcases heq : r.session.workers.record worker i events with ⟨ws, events'⟩
      rw [Ongoing.step, Session.record, bind_assoc, Logged.bind_of_eq heq]
      rfl
  | insert kept i =>
      rw [Ongoing.step]
      cases r.kept[kept]? with
      | none => rfl
      | some id => rfl

namespace Traced

/-- A run in which nothing has been done. -/
def start (config : SessionConfig) : Traced := ⟨.start config, []⟩

/-- Does a step.  A translation tells an instruction or none. -/
def step (source : MapsSource) (t : Traced) : TracedStep → Logged Traced
  | .translate vaddr length => do
      let (answer, session) ← t.ongoing.session.instructionAt source vaddr length
      let told := match answer with
        | .ok (some i) => t.told ++ [(vaddr, i)]
        | .ok none | .error _ => t.told
      return ⟨{ t.ongoing with session }, told⟩
  | .work step => do
      return { t with ongoing := ← t.ongoing.step step }

/-- Does steps one after the other. -/
def run (source : MapsSource) (steps : List TracedStep) (t : Traced) : Logged Traced :=
  steps.foldlM (step source) t

/-- The instruction is at an address of a line of the target, and has its offset. -/
def Tells (source : MapsSource) (target : Path) (e : UInt64 × Instruction) : Prop :=
  ∃ n text r, source n = .ok text ∧ r ∈ Mapping.rangesOf target text
    ∧ r.contains e.1 = true ∧ e.2.offset = (e.1 - r.start + r.offset).toInt64

/-- A run follows a history, and its map and all that was told come from the source. -/
structure Follows (source : MapsSource) (config : SessionConfig) (owners : List Nat)
    (history : History) (t : Traced) : Prop where
  ongoing : t.ongoing.Follows config owners history
  addresses : t.ongoing.session.addresses.DrawsFrom source config.binary
  told : ∀ e ∈ t.told, Tells source config.binary e

variable {source : MapsSource} {config : SessionConfig} {owners : List Nat} {history : History}
  {t : Traced}

theorem follows_start (source : MapsSource) (config : SessionConfig) :
    (start config).Follows source config [] [] where
  ongoing := Ongoing.follows_start config
  addresses := DeferredMap.drawsFrom_ofTarget source config.binary
  told := nofun

/-- What a translation tells, and what becomes of the session. -/
theorem instructionAt_of_drawsFrom {s : Session} {target : Path}
    (h : s.addresses.DrawsFrom source target) (vaddr : UInt64) (length : Nat)
    (events : List Log.Event) :
    ∃ answer addresses events',
      s.instructionAt source vaddr length events = ((answer, { s with addresses }), events')
      ∧ addresses.DrawsFrom source target
      ∧ ∀ i, answer = .ok (some i) → Tells source target (vaddr, i) := by
  obtain ⟨answer, d, events₁, hrequest, hd, hanswer⟩ := h.request events
  obtain ⟨events₂, hresolve⟩ := DeferredMap.resolve_of_request vaddr hrequest
  rw [instructionAt, Logged.bind_of_eq hresolve]
  cases answer with
  | error fault => exact ⟨.error fault, d, events₂, rfl, hd, nofun⟩
  | ok m =>
      obtain ⟨n, text, hread, hm⟩ := hanswer m rfl
      obtain ⟨-, rfl⟩ := AddressMap.ofDescription_eq_ok_iff.1 hm
      rw [Except.map]
      dsimp only
      cases hoffset : (AddressMap.ofRanges (Mapping.rangesOf target text)).resolve vaddr with
      | none => exact ⟨.ok none, d, events₂, rfl, hd, nofun⟩
      | some o =>
          obtain ⟨r, hr, hcontains, rfl⟩ := AddressMap.mem_of_resolve hoffset
          -- longer than a byte can tell, no instruction is given
          by_cases hlength : length < 256
          · let told : Instruction := ⟨(vaddr - r.start + r.offset).toInt64, length.toUInt8⟩
            refine ⟨.ok (some told), d, events₂, ?_, hd, fun i hi => ?_⟩
            · dsimp only
              rw [if_pos hlength]
              rfl
            · cases hi
              exact ⟨n, text, r, hread, hr, hcontains, rfl⟩
          · exact ⟨.ok none, d, _, by dsimp only; rw [if_neg hlength]; rfl, hd, nofun⟩

/-- **STEP**.  A translation adds nothing to the history, and any other step what it adds
    without translations. -/
theorem Follows.step (h : t.Follows source config owners history) (s : TracedStep)
    (events : List Log.Event) :
    ∃ t' events', t.step source s events = (t', events')
      ∧ match s with
        | .translate _ _ => t'.Follows source config owners history
        | .work step =>
            t'.Follows source config (owners ++ step.keeps) (history ++ step.adds owners) := by
  cases s with
  | translate vaddr length =>
      obtain ⟨answer, d, events', heq, hd, htells⟩ :=
        instructionAt_of_drawsFrom h.addresses vaddr length events
      have hongoing : Ongoing.Follows config owners history
          ⟨{ t.ongoing.session with addresses := d }, t.ongoing.kept⟩ :=
        ⟨h.ongoing.config, h.ongoing.tracks, h.ongoing.kept⟩
      refine ⟨_, events', by rw [Traced.step, Logged.bind_of_eq heq]; rfl, hongoing, hd, ?_⟩
      -- only a translation that gives an instruction adds to what was told
      rcases answer with fault | _ | i
      · exact h.told
      · exact h.told
      · intro e he
        rcases List.mem_append.1 he with he | he
        · exact h.told e he
        · rw [List.mem_singleton.1 he]
          exact htells i rfl
  | work step =>
      obtain ⟨r, events', heq, hstep⟩ := h.ongoing.step step events
      have haddresses : r.session.addresses = t.ongoing.session.addresses := by
        rw [← addresses_of_step t.ongoing step events, heq]
      refine ⟨⟨r, t.told⟩, events', ?_, hstep, haddresses.symm ▸ h.addresses, h.told⟩
      rw [Traced.step, Logged.bind_of_eq heq]
      rfl

theorem run_cons {s : TracedStep} {rest : List TracedStep} {t' : Traced}
    {events events' : List Log.Event} (h : t.step source s events = (t', events')) :
    t.run source (s :: rest) events = t'.run source rest events' := by
  rw [run, List.foldlM_cons, Logged.bind_of_eq h]
  rfl

/-- **RUN**.  The same of any steps. -/
theorem Follows.run (h : t.Follows source config owners history) (steps : List TracedStep)
    (events : List Log.Event) :
    ∃ owners', (t.run source steps events).1.Follows source config owners'
      (history ++ historyOf owners (workOf steps)) := by
  -- translations add nothing to the history; the other steps add what they record
  induction steps generalizing t owners history events with
  | nil => exact ⟨owners, (List.append_nil history).symm ▸ h⟩
  | cons s rest ih =>
      obtain ⟨t', events', heq, hstep⟩ := h.step s events
      rw [run_cons heq]
      cases s with
      | translate vaddr length => exact ih hstep events'
      | work step =>
          have hhistory : historyOf owners (workOf (.work step :: rest))
              = step.adds owners ++ historyOf (owners ++ step.keeps) (workOf rest) := rfl
          rw [hhistory, ← List.append_assoc]
          exact ih hstep events'

end Traced

/-! ## The evaluation of a run -/

/-- What storing gives was made by merging, whatever is written besides. -/
theorem mergedAt_of_store {config : SessionConfig} {table : InstructionTable} {h h' : Host}
    {capture : RichCapture} (hstore : store config table h = .ok capture h') :
    ∃ digest, mergedAt config.output config.binary table digest h.files = .ok capture := by
  obtain ⟨merged, h₁, hmerge, hrest⟩ := bind_eq_ok_iff.1 hstore
  obtain ⟨digest, -, hbuild⟩ := mergeRun_eq_ok_iff.1 hmerge
  obtain ⟨hmade, -⟩ := mergeBuild_ok hbuild
  -- what is stored is the merged capture, with a legacy capture or without
  have hgives : capture = merged := by
    cases hconfig : config.legacy with
    | none =>
        rw [hconfig] at hrest
        cases hrest
        rfl
    | some legacy =>
        rw [hconfig] at hrest
        obtain ⟨_, h₂, -, hlogs⟩ := bind_eq_ok_iff.1 hrest
        cases hlogs
        rfl
  exact ⟨digest, hgives ▸ hmade⟩

/-- **TRANSLATION**.  Let every line of the binary be loaded at one base, which the capture
    of a run has as well.  An instruction that a translation told and a worker executed has
    the offset that its address has from this base, if there is one.  Scored against the
    capture, its address is a true start; and static starts that have it miss no instruction
    there. -/
theorem verdict_of_translated {ε : Type} (config : SessionConfig) (source : MapsSource)
    (steps : List TracedStep) (events : List Log.Event) {base : Int64} {h h' : Host}
    {capture : RichCapture} {s' : Session} {vaddr : UInt64} {i : Instruction}
    (hloaded : ∀ n text, source n = .ok text → ∀ r ∈ Mapping.rangesOf config.binary text,
      r.start - r.offset = base.toUInt64)
    (hfinish : ((Traced.start config).run source steps events).1.ongoing.session.finish h
      = (.ok (.ok capture, s') h' : EStateM.Result ε _ _))
    (hbase : capture.base = base)
    (htold : (vaddr, i) ∈ ((Traced.start config).run source steps events).1.told)
    (hexecuted : ∃ worker, (worker, i) ∈ historyOf [] (workOf steps))
    (hlow : Int64.minValue.toInt ≤ vaddr.toInt64.toInt - base.toInt)
    (hhigh : vaddr.toInt64.toInt - base.toInt ≤ Int64.maxValue.toInt) :
    let truth : GroundTruth := ⟨capture.table, capture.base⟩
    i.offset.toInt = vaddr.toInt64.toInt - base.toInt
      ∧ truth.verdict vaddr.toInt64 = .truePositive
      ∧ ∀ statics : OffsetSet, statics.contains vaddr.toInt64 = true →
        ∀ j ∈ truth.missed statics, j.offset ≠ i.offset := by
  intro truth
  obtain ⟨owners, follows⟩ := (Traced.follows_start source config).run steps events
  obtain ⟨n, text, r, hread, hr, hcontains, hword⟩ := follows.told _ htold
  have hoffset : i.offset.toInt = vaddr.toInt64.toInt - base.toInt := by
    rw [hword]
    exact toInt_offset_of_loaded (hloaded n text hread r hr) hlow hhigh
  have haddress : i.offset.toInt + truth.base.toInt = vaddr.toInt64.toInt := by
    show _ + capture.base.toInt = _
    rw [hbase, hoffset, Int.sub_add_cancel]
  -- the instruction is merged into the capture
  have hkept : capture.table.contains i.offset = true := by
    obtain ⟨⟨_, hstore⟩, -⟩ := store_of_finish hfinish
    rw [follows.ongoing.config] at hstore
    obtain ⟨digest, hmade⟩ := mergedAt_of_store hstore
    obtain ⟨worker, hworker⟩ := hexecuted
    refine (contains_of_mergedAt hmade).2 (Or.inr ?_)
    exact follows.ongoing.tracks.contains_union_iff.2 ⟨(worker, i), hworker, rfl⟩
  refine ⟨hoffset, ?_, fun statics hstatic j hj hsame => ?_⟩
  · rw [GroundTruth.verdict_eq_truePositive_iff, ← haddress]
    exact Finset.mem_image_of_mem _ (SortedMap.toInt_mem_places_iff.2 hkept)
  · have hfound : truth.isFound statics j = true := by
      rw [GroundTruth.isFound_iff, hsame, haddress]
      exact SortedMap.toInt_mem_places_iff.2 hstatic
    rw [GroundTruth.missed, List.mem_filter, hfound] at hj
    exact Bool.false_ne_true hj.2

/-! ## A binary loaded at the end of the address space -/

/-- The load base is a word whose signed value is negative. -/
private def highBase : Int64 := -0x100000000

private def highCapture : RichCapture := ⟨Digest.ofBytes [1], highBase, .ofListFirst [(0, 2)]⟩

private def highConfig : SessionConfig := ⟨⟨[112]⟩, ⟨[99]⟩, none⟩

private def highSource : MapsSource :=
  fun _ => .ok "ffffffff00400000-ffffffff00401000 r-xp 00400000 08:01 7 p\n"

/-- The addresses of the binary are above 2 ^ 63, and an instruction translated there and recorded
    is a true positive. -/
theorem verdict_of_translated_high_base :
    let steps : List TracedStep :=
      [.translate 0xffffffff00400010 4, .work (.record 0 ⟨0x400010, 4⟩)]
    ∃ capture s' h', ((Traced.start highConfig).run highSource steps
          []).1.ongoing.session.finish ⟨filesWithCapture highCapture, []⟩
        = (.ok (.ok capture, s') h' : EStateM.Result Empty _ _)
      ∧ capture.base = highBase
      ∧ (⟨capture.table, capture.base⟩ : GroundTruth).verdict (0xffffffff00400010 : UInt64).toInt64
        = .truePositive := by
  intro steps
  obtain ⟨owners, follows⟩ := (Traced.follows_start highSource highConfig).run steps []
  obtain ⟨h', hfinish⟩ :=
    finish_of_filesWithCapture (c := highCapture) follows.ongoing.config rfl (by decide) nofun []
  have hloaded : ∀ n text, highSource n = .ok text →
      ∀ r ∈ Mapping.rangesOf ⟨[112]⟩ text, r.start - r.offset = highBase.toUInt64 := by
    intro n text htext
    cases htext
    decide +kernel
  have htold : (0xffffffff00400010, ⟨0x400010, 4⟩) ∈ ((Traced.start highConfig).run
      highSource steps []).1.told := by
    decide +kernel
  obtain ⟨-, hverdict, -⟩ := verdict_of_translated _ highSource steps [] hloaded hfinish rfl htold
    ⟨0, List.mem_singleton_self _⟩ (by decide) (by decide)
  exact ⟨_, _, h', hfinish, rfl, hverdict⟩

end Session

end ExecTruth
