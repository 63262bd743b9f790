import ExecTruth.Proofs.AddressSpace.DeferredMaps
import ExecTruth.Proofs.AddressSpace.Lookups
import ExecTruth.Proofs.Emulator.ProcessorCalls
import ExecTruth.Proofs.Recording.Finishes
import Mathlib.Data.List.ReduceOption

/-! # Guest runs — an offset is captured if and only if it was executed

    A guest runs from the installation of the plugin to its end: processors start, blocks
    of instructions are translated, and instructions that were given a token are executed,
    by any processor, on any thread and any number of times.

    The address space is read when the first instruction is translated, and from then on
    the map made of it is used (`DeferredMap.mapWith`).  So all tokens are those of one map:
    an instruction has one if the map has an offset for its address and its size fits in a
    byte, whatever stands beside it in its block (`translateAll_of_ok`).  Executions are
    recorded with their tokens, and at the end they are merged into the capture of the same
    build (`captured_iff_executed`). -/

namespace ExecTruth

variable {description : Except IoFault String} {target : Path} {m : AddressMap}
  {d d' : DeferredMap} {events events' : List Log.Event} {history : History}

/-! ## Translation with one map -/

namespace AddressMap

/-- The instruction of a size at an address, if the map has an offset for the address and
    the size fits in a byte. -/
def instructionAt (m : AddressMap) (e : UInt64 × Nat) : Option Instruction :=
  (m.resolve e.1).bind fun o => if e.2 ≤ 255 then some ⟨o.toInt64, e.2.toUInt8⟩ else none

/-- An instruction is recorded if its length is a byte and its address is in a range, at the
    offset that the deciding range gives it. -/
theorem instructionAt_eq_some_iff {ranges : List MappedRange} {vaddr : UInt64} {size : Nat}
    {i : Instruction} :
    (ofRanges ranges).instructionAt (vaddr, size) = some i
      ↔ size ≤ 255 ∧ ∃ r, Decides ranges vaddr r ∧ r.contains vaddr = true
        ∧ i = ⟨(vaddr - r.start + r.offset).toInt64, size.toUInt8⟩ := by
  rw [instructionAt, Option.bind_eq_some_iff]
  constructor
  · rintro ⟨o, hoffset, hi⟩
    rw [resolve_ofRanges] at hoffset
    obtain ⟨r, hfound, hoffset⟩ := Option.bind_eq_some_iff.1 hoffset
    have hcontains : r.contains vaddr = true := by
      by_contra hnot
      rw [MappedRange.offsetAt_of_not_contains hnot] at hoffset
      exact nomatch hoffset
    rw [MappedRange.offsetAt_of_contains hcontains] at hoffset
    obtain ⟨hsize, hi⟩ := Option.ite_none_right_eq_some.1 hi
    refine ⟨hsize, r, atOrBelow?_ofRanges_eq_some_iff.1 hfound, hcontains, ?_⟩
    rw [Option.some.inj hoffset, Option.some.inj hi]
  · rintro ⟨hsize, r, hdecides, hcontains, rfl⟩
    refine ⟨vaddr - r.start + r.offset, ?_, if_pos hsize⟩
    rw [resolve_of_decides hdecides, MappedRange.offsetAt_of_contains hcontains]

/-- Where the ranges are apart, it is enough that the address lies in one of them. -/
theorem isSome_instructionAt_iff {ranges : List MappedRange}
    (hfull : ∀ r ∈ ranges, r.start < r.stop) (hapart : ranges.Pairwise MappedRange.Apart)
    (vaddr : UInt64) (size : Nat) :
    ((ofRanges ranges).instructionAt (vaddr, size)).isSome = true
      ↔ size ≤ 255 ∧ ∃ r ∈ ranges, r.contains vaddr = true := by
  rw [Option.isSome_iff_exists]
  constructor
  · rintro ⟨i, hi⟩
    obtain ⟨hsize, r, hdecides, hcontains, -⟩ := instructionAt_eq_some_iff.1 hi
    exact ⟨hsize, r, hdecides.mem, hcontains⟩
  · rintro ⟨hsize, r, hr, hcontains⟩
    have hdecides := decides_of_contains hfull hapart hr hcontains
    exact ⟨_, instructionAt_eq_some_iff.2 ⟨hsize, r, hdecides, hcontains, rfl⟩⟩

end AddressMap

namespace DeferredMap

/-- The map that a request is answered from, if reading the address space gives this
    description then. -/
def mapWith (d : DeferredMap) (description : Except IoFault String) : Except MapsFault AddressMap :=
  match d.map? with
  | some m => .ok m
  | none => mapOf d.target description

/-- A request answers what the map is with this description, keeps the target's name, and keeps
    the map it answers. -/
theorem request_eq (hd : d.Names target) (description : Except IoFault String)
    (events : List Log.Event) :
    ∃ d' events', d.request (fun _ => description) events = ((d.mapWith description, d'), events')
      ∧ d'.Names target ∧ ∀ m, d.mapWith description = .ok m → d'.map? = some m := by
  unfold mapWith
  cases hmap : d.map? with
  | some m =>
      refine ⟨d, events, request_of_some hmap _ events, hd, fun m' hm => ?_⟩
      rw [hmap, Except.ok.inj hm]
  | none =>
      obtain ⟨d', events', hrequest, hd', -, hmap'⟩ :=
        request_of_none hd hmap (fun _ => description) events
      rw [hd.target_eq]
      refine ⟨d', events', hrequest, hd', fun m hm => ?_⟩
      have hanswer : mapOf target description = .ok m := hm
      rw [hmap', hanswer]
      rfl

/-- A map that was read is not read again, whatever the description says now. -/
theorem mapWith_of_some (h : d.map? = some m) (description : Except IoFault String) :
    d.mapWith description = .ok m := by
  rw [mapWith, h]

end DeferredMap

/-- An address is translated with the map that its request is answered from. -/
theorem Session.instructionAt_of_request {s : Session} {source : MapsSource}
    {answer : Except MapsFault AddressMap} (e : UInt64 × Nat)
    (h : s.addresses.request source events = ((answer, d'), events')) :
    ∃ events'', s.instructionAt source e.1 e.2 events
      = ((answer.map fun m => m.instructionAt e, { s with addresses := d' }), events'') := by
  obtain ⟨events₁, hresolve⟩ := DeferredMap.resolve_of_request e.1 h
  rw [Session.instructionAt, Logged.bind_of_eq hresolve]
  cases answer with
  | error fault => exact ⟨events₁, rfl⟩
  | ok m =>
      rw [Except.map, Except.map, AddressMap.instructionAt]
      dsimp only
      cases hoffset : m.resolve e.1 with
      | none => exact ⟨events₁, rfl⟩
      | some o =>
          dsimp only [Option.bind_some]
          -- the length has to be a byte; if it is not, the instruction is reported and skipped
          by_cases hsize : e.2 ≤ 255
          · have hlt : e.2 < 256 := by omega
            rw [if_pos hlt, if_pos hsize]
            exact ⟨events₁, rfl⟩
          · have hge : ¬ e.2 < 256 := by omega
            rw [if_neg hge, if_neg hsize]
            exact ⟨_, rfl⟩

namespace Job

variable {ε ε' α : Type} {job : Job ε α} {h h' : Host} {a : α}

/-- What an attempt gives as a success is what the job gave. -/
theorem of_attempt_eq_ok (hattempt : (attempt job : Job ε' _) h = .ok (.ok a) h') :
    job h = .ok a h' := by
  unfold attempt at hattempt
  split at hattempt
  · next hjob =>
      cases hattempt
      exact hjob
  · exact nomatch hattempt

/-- A span changes nothing but how events are told. -/
theorem inSpan_of_ok (span : Log.Span) (hjob : job { h with events := [] } = .ok a h') :
    ∃ events, inSpan span job h = .ok a ⟨h'.files, events⟩ := by
  unfold inSpan
  dsimp only
  rw [hjob]
  exact ⟨_, rfl⟩

/-- Inside a span a job does what it does outside, with events of its own. -/
theorem of_inSpan_eq_ok {span : Log.Span} (hspan : inSpan span job h = .ok a h') :
    ∃ events, job { h with events := [] } = .ok a ⟨h'.files, events⟩ := by
  unfold inSpan at hspan
  dsimp only at hspan
  split at hspan
  · next a' inner hjob =>
      cases hspan
      exact ⟨inner.events, hjob⟩
  · exact nomatch hspan

end Job

namespace Plugin

/-! ## Blocks -/

section Blocks

variable {s : Session} {e : UInt64 × Nat} {block : List (UInt64 × Nat)} {h h' : Host}

/-- An instruction is given the token that the map has for it. -/
theorem translateOne_of_ok (hd : s.addresses.Names target)
    (hm : s.addresses.mapWith description = .ok m) (e : UInt64 × Nat) (h : Host) :
    ∃ d' events', translateOne (fun _ => description) e.1 e.2 s h
        = .ok (m.instructionAt e, { s with addresses := d' }) ⟨h.files, events'⟩
      ∧ d'.Names target ∧ d'.map? = some m := by
  obtain ⟨d', events₁, hrequest, hd', hmap'⟩ :=
    DeferredMap.request_eq hd description h.events
  rw [hm] at hrequest
  obtain ⟨events₂, hinstruction⟩ := Session.instructionAt_of_request e hrequest
  have hjob := Job.ofLogged_of_eq (ε := ProcessEnd) hinstruction
  rw [translateOne, Job.bind_of_ok hjob, Except.map]
  cases m.instructionAt e with
  | none => exact ⟨d', events₂, rfl, hd', hmap' m hm⟩
  | some token => exact ⟨d', _, rfl, hd', hmap' m hm⟩

/-- Without a map, no instruction is translated. -/
theorem mapWith_of_translateOne {r : Option Token × Session} (hd : s.addresses.Names target)
    (hone : translateOne (fun _ => description) e.1 e.2 s h = .ok r h') :
    ∃ m, s.addresses.mapWith description = .ok m := by
  obtain ⟨d', events₁, hrequest, -⟩ := DeferredMap.request_eq hd description h.events
  cases hmap : s.addresses.mapWith description with
  | ok m => exact ⟨m, rfl⟩
  | error fault =>
      rw [hmap] at hrequest
      obtain ⟨events₂, hinstruction⟩ := Session.instructionAt_of_request e hrequest
      have hjob := Job.ofLogged_of_eq (ε := ProcessEnd) hinstruction
      rw [translateOne, Job.bind_of_ok hjob] at hone
      exact nomatch hone

/-- The instructions of a block are given the tokens that the map has for them, each as
    if it stood alone. -/
theorem translateAll_of_ok (hd : s.addresses.Names target)
    (hm : block ≠ [] → s.addresses.mapWith description = .ok m) (h : Host) :
    ∃ d' events', translateAll (fun _ => description) block s h
        = .ok (block.map m.instructionAt, { s with addresses := d' }) ⟨h.files, events'⟩
      ∧ d'.Names target ∧ (block = [] → d' = s.addresses) ∧ (block ≠ [] → d'.map? = some m) := by
  induction block generalizing s h with
  | nil => exact ⟨s.addresses, h.events, rfl, hd, fun _ => rfl, fun hne => absurd rfl hne⟩
  | cons e rest ih =>
      obtain ⟨d₁, events₁, hone, hd₁, hmap₁⟩ :=
        translateOne_of_ok hd (hm (List.cons_ne_nil e rest)) e h
      obtain ⟨d₂, events₂, hall, hd₂, hsame, hmap₂⟩ := ih (s := { s with addresses := d₁ }) hd₁
        (fun _ => DeferredMap.mapWith_of_some hmap₁ description) ⟨h.files, events₁⟩
      refine ⟨d₂, events₂, ?_, hd₂, nofun, fun _ => ?_⟩
      · rw [translateAll, Job.bind_of_ok hone]
        dsimp only
        rw [Job.bind_of_ok hall]
        rfl
      · -- the map that stays is that of the last request, and the first of a block may be its last
        by_cases hrest : rest = []
        · rw [hsame hrest]
          exact hmap₁
        · exact hmap₂ hrest

/-- Every instruction of a translated block is answered by the map of the session, which is kept;
    nothing else of the host is touched. -/
theorem onBlock_of_ok (hd : s.addresses.Names target)
    (hm : block ≠ [] → s.addresses.mapWith description = .ok m) (h : Host) :
    ∃ d' events', onBlock (fun _ => description) block s h
        = .ok (block.map m.instructionAt, { s with addresses := d' }) ⟨h.files, events'⟩
      ∧ d'.Names target ∧ (block = [] → d' = s.addresses) ∧ (block ≠ [] → d'.map? = some m) := by
  obtain ⟨d', events', hall, hrest⟩ := translateAll_of_ok hd hm { h with events := [] }
  obtain ⟨events₁, hspan⟩ := Job.inSpan_of_ok
    (span "on_tb_trans" [("address", .text (Text.hexWord ((block.head?.map (·.1)).getD 0)))]) hall
  refine ⟨d', events₁, ?_, hrest⟩
  rw [onBlock, Job.bind_of_ok (Job.attempt_of_ok hspan)]
  rfl

/-- A block with an instruction is not translated without a map. -/
theorem mapWith_of_onBlock {r : List (Option Token) × Session} (hd : s.addresses.Names target)
    (hblock : onBlock (fun _ => description) (e :: block) s h = .ok r h') :
    ∃ m, s.addresses.mapWith description = .ok m := by
  obtain ⟨outcome, h₁, hattempt, hend⟩ := Job.bind_eq_ok_iff.1 hblock
  cases outcome with
  | error fault =>
      obtain ⟨-, h₂, -, hthrow⟩ := Job.bind_eq_ok_iff.1 hend
      exact nomatch hthrow
  | ok r' =>
      obtain ⟨events, hall⟩ := Job.of_inSpan_eq_ok (Job.of_attempt_eq_ok hattempt)
      obtain ⟨r₁, h₂, hone, -⟩ := Job.bind_eq_ok_iff.1 hall
      exact mapWith_of_translateOne hd hone

end Blocks

/-! ## Runs -/

/-- What the emulator tells of a guest that runs. -/
inductive GuestCall where
  /-- A processor starts. -/
  | processor (thread vcpu : Nat)
  /-- A block of instructions, each an address and a size, is translated; reading the
      address space then gives the description. -/
  | block (description : Except IoFault String) (instructions : List (UInt64 × Nat))
  /-- A processor executes the instruction with a token, by the number of tokens given
      before it. -/
  | execution (thread vcpu n : Nat)

/-- A guest with the plugin, and what the instructions of each block were given. -/
structure Guest where
  plugin : InUse
  given : List (List (Option Token))

/-- The tokens among what was given. -/
def tokensOf (given : List (List (Option Token))) : List Token := given.flatten.reduceOption

/-- Serves a call as the plugin does.  There is nothing to execute if no token with that
    number was given. -/
def Guest.serve (g : Guest) : GuestCall → Job ProcessEnd Guest
  | .processor thread vcpu => do
      return { g with plugin := ← g.plugin.serve (.start thread vcpu) }
  | .block description instructions => do
      let (tokens, session) ← onBlock (fun _ => description) instructions g.plugin.session
      return ⟨{ g.plugin with session }, g.given ++ [tokens]⟩
  | .execution thread vcpu n =>
      match (tokensOf g.given)[n]? with
      | some token => do
          return { g with plugin := ← g.plugin.serve (.execution thread vcpu token) }
      | none => return g

/-- Serves calls, one after the other, from the installation on. -/
def runGuest (config : SessionConfig) (calls : List GuestCall) : Job ProcessEnd Guest :=
  calls.foldlM Guest.serve ⟨⟨.start config, .empty⟩, []⟩

/-- What reading the address space gives, if a call has an instruction translated. -/
def GuestCall.reads? : GuestCall → Option (Except IoFault String)
  | .block description (_ :: _) => some description
  | _ => none

/-- What the instructions of a block are to be given. -/
def GuestCall.gives (m : AddressMap) : GuestCall → List (List (Option Token))
  | .block _ instructions => [instructions.map m.instructionAt]
  | .processor _ _ | .execution _ _ _ => []

/-- What a call executes, if these tokens were given before. -/
def GuestCall.executes (tokens : List Token) : GuestCall → History
  | .processor _ _ | .block _ _ => []
  | .execution _ vcpu n => tokens[n]?.toList.map fun token => (vcpu, token)

/-- What calls execute, behind those that gave what was given. -/
def executions (m : AddressMap) : (given : List (List (Option Token))) → List GuestCall → History
  | _, [] => []
  | given, call :: rest =>
      call.executes (tokensOf given) ++ executions m (given ++ call.gives m) rest

/-- The ranges of the target in the description that is read first. -/
def rangesRead (target : Path) (calls : List GuestCall) : List MappedRange :=
  match calls.findSome? GuestCall.reads? with
  | some (.ok text) => Mapping.rangesOf target text
  | _ => []

variable {g : Guest} {config : SessionConfig}

/-- The guest's session is one of the configuration, and holds what was executed. -/
structure Guest.Keeps (g : Guest) (config : SessionConfig) (history : History) : Prop where
  names : g.plugin.session.addresses.Names config.binary
  config : g.plugin.session.config = config
  plugin : g.plugin.Keeps history

/-- **STEP**.  If a map can be made of what a call reads, the call succeeds, gives the
    tokens of that map, and records what it executes. -/
theorem Guest.Keeps.serve (h : g.Keeps config history) (call : GuestCall)
    (hm : ∀ description, call.reads? = some description →
      g.plugin.session.addresses.mapWith description = .ok m) (host : Host) :
    ∃ g' host', g.serve call host = .ok g' host'
      ∧ g'.Keeps config (history ++ call.executes (tokensOf g.given))
      ∧ g'.given = g.given ++ call.gives m
      ∧ (call.reads? = none → g'.plugin.session.addresses = g.plugin.session.addresses)
      ∧ (∀ description, call.reads? = some description →
        g'.plugin.session.addresses.map? = some m) := by
  cases call with
  | processor thread vcpu =>
      obtain ⟨p, host', hcall, hkeeps, hsame, -⟩ := h.plugin.serve (.start thread vcpu) host
      refine ⟨⟨p, g.given⟩, host', Job.bind_of_ok hcall, ⟨?_, ?_, hkeeps⟩,
        (List.append_nil _).symm, fun _ => hsame.addresses, nofun⟩
      · rw [hsame.addresses]
        exact h.names
      · rw [hsame.config]
        exact h.config
  | block description instructions =>
      have hmap : instructions ≠ [] →
          g.plugin.session.addresses.mapWith description = .ok m := by
        intro hne
        obtain ⟨e, rest, rfl⟩ := List.exists_cons_of_ne_nil hne
        exact hm description rfl
      obtain ⟨d, events, hblock, hnames, hempty, hfull⟩ := onBlock_of_ok h.names hmap host
      refine ⟨_, _, Job.bind_of_ok hblock, ⟨hnames, h.config, ?_⟩, rfl, fun hnone => ?_,
        fun description' hsome => ?_⟩
      · rw [GuestCall.executes, List.append_nil]
        exact ⟨h.plugin.tracks, h.plugin.names⟩
      · cases instructions with
        | nil => exact hempty rfl
        | cons e rest => exact nomatch hnone
      · cases instructions with
        | nil => exact nomatch hsome
        | cons e rest => exact hfull (List.cons_ne_nil e rest)
  | execution thread vcpu n =>
      rw [GuestCall.executes, Guest.serve]
      -- a block that was skipped gave no token, and there is nothing to execute of it
      cases htoken : (tokensOf g.given)[n]? with
      | none =>
          refine ⟨g, host, rfl, ?_, (List.append_nil _).symm, fun _ => rfl, nofun⟩
          simpa using h
      | some token =>
          obtain ⟨p, host', hcall, hkeeps, hsame, -⟩ :=
            h.plugin.serve (.execution thread vcpu token) host
          refine ⟨⟨p, g.given⟩, host', Job.bind_of_ok hcall, ⟨?_, ?_, hkeeps⟩,
            (List.append_nil _).symm, fun _ => hsame.addresses, nofun⟩
          · rw [hsame.addresses]
            exact h.names
          · rw [hsame.config]
            exact h.config

/-- **RUN**.  The same of any calls, if a map can be made of what is read first. -/
theorem Guest.Keeps.run (h : g.Keeps config history) (calls : List GuestCall)
    (hm : ∀ description, calls.findSome? GuestCall.reads? = some description →
      g.plugin.session.addresses.mapWith description = .ok m) (host : Host) :
    ∃ g' host', calls.foldlM Guest.serve g host = .ok g' host'
      ∧ g'.Keeps config (history ++ executions m g.given calls)
      ∧ g'.given = g.given ++ calls.flatMap (GuestCall.gives m) := by
  induction calls generalizing g history host with
  | nil =>
      refine ⟨g, host, rfl, ?_, (List.append_nil _).symm⟩
      rw [executions, List.append_nil]
      exact h
  | cons call rest ih =>
      have hcall : ∀ description, call.reads? = some description →
          g.plugin.session.addresses.mapWith description = .ok m := by
        intro description hread
        refine hm description ?_
        rw [List.findSome?_cons, hread]
      obtain ⟨mid, hostMid, hserve, hkeeps, hgiven, hsame, hmade⟩ := h.serve call hcall host
      have hrest : ∀ description, rest.findSome? GuestCall.reads? = some description →
          mid.plugin.session.addresses.mapWith description = .ok m := by
        intro description hfirst
        cases hread : call.reads? with
        | none =>
            -- this call has read nothing, so the next reading is the first
            rw [hsame hread]
            refine hm description ?_
            rw [List.findSome?_cons, hread]
            exact hfirst
        | some read => exact DeferredMap.mapWith_of_some (hmade read hread) description
      obtain ⟨g', host', hrun, hkeeps', hgiven'⟩ := ih hkeeps hrest hostMid
      refine ⟨g', host', ?_, ?_, ?_⟩
      · rw [List.foldlM_cons, Job.bind_of_ok hserve]
        exact hrun
      · rw [executions, ← List.append_assoc, ← hgiven]
        exact hkeeps'
      · rw [hgiven', hgiven, List.flatMap_cons, List.append_assoc]

/-- A run that does not end the process has made a map of what it read first. -/
theorem Guest.Keeps.mapWith_of_run {g' : Guest} {host host' : Host} {calls : List GuestCall}
    (h : g.Keeps config history) (hrun : calls.foldlM Guest.serve g host = .ok g' host')
    (hread : calls.findSome? GuestCall.reads? = some description) :
    ∃ m, g.plugin.session.addresses.mapWith description = .ok m := by
  induction calls generalizing g history host with
  | nil => exact nomatch hread
  | cons call rest ih =>
      rw [List.foldlM_cons] at hrun
      rw [List.findSome?_cons] at hread
      cases hfirst : call.reads? with
      | none =>
          rw [hfirst] at hread
          obtain ⟨mid, hostMid, hserve, hkeeps, -, hsame, -⟩ :=
            h.serve (m := ⟨.empty⟩) call (fun description hsome => nomatch hfirst.symm.trans hsome)
              host
          rw [Job.bind_of_ok hserve] at hrun
          rw [← hsame hfirst]
          exact ih hkeeps hrun hread
      | some read =>
          rw [hfirst] at hread
          cases hread
          obtain ⟨mid, hostMid, hserve, -⟩ := Job.bind_eq_ok_iff.1 hrun
          -- only a block with an instruction reads
          cases call with
          | processor thread vcpu => exact nomatch hfirst
          | execution thread vcpu n => exact nomatch hfirst
          | block read' instructions =>
              cases instructions with
              | nil => exact nomatch hfirst
              | cons e block =>
                  cases hfirst
                  obtain ⟨r, h₁, hblock, -⟩ := Job.bind_eq_ok_iff.1 hserve
                  exact mapWith_of_onBlock h.names hblock

/-! ## The end of a run -/

/-- A run that ends without a fault has finished its session. -/
theorem finish_of_onEnd {s s' : Session} {h h' : Host} (hend : onEnd true s h = .ok s' h') :
    ∃ capture h₁, (s.finish : Job ProcessEnd _) { h with events := [] } = .ok (.ok capture, s') h₁
      ∧ h₁.files = h'.files := by
  obtain ⟨outcome, h₂, hattempt, hreturn⟩ := Job.bind_eq_ok_iff.1 hend
  -- an attempt that fails is thrown again behind its report, so it ends no process well
  cases outcome with
  | error fault =>
      obtain ⟨-, h₃, -, hthrow⟩ := Job.bind_eq_ok_iff.1 hreturn
      exact nomatch hthrow
  | ok s₁ =>
      cases hreturn
      obtain ⟨events, hjob⟩ := Job.of_inSpan_eq_ok (Job.of_attempt_eq_ok hattempt)
      obtain ⟨⟨answer, s₂⟩, h₃, hfinish, hanswer⟩ := Job.bind_eq_ok_iff.1 hjob
      cases answer with
      | error fault =>
          obtain ⟨-, h₄, -, hthrow⟩ := Job.bind_eq_ok_iff.1 hanswer
          exact nomatch hthrow
      | ok capture =>
          cases hanswer
          exact ⟨capture, _, hfinish, rfl⟩

/-- A run ends without a fault if its session can be finished. -/
theorem onEnd_of_finish {s s' : Session} {capture : RichCapture} {h h₁ : Host}
    (hfinish : (s.finish : Job ProcessEnd _) { h with events := [] } = .ok (.ok capture, s') h₁) :
    ∃ events, onEnd true s h = .ok s' ⟨h₁.files, events⟩ := by
  have hjob : finishSession s { h with events := [] } = .ok s' h₁ := Job.bind_of_ok hfinish
  obtain ⟨events, hspan⟩ := Job.inSpan_of_ok (span "on_exit" []) hjob
  refine ⟨events, ?_⟩
  exact Job.bind_of_ok (Job.attempt_of_ok hspan)

/-- Before the first call nothing was executed, and no block was translated. -/
theorem Guest.keeps_start (config : SessionConfig) :
    Guest.Keeps ⟨⟨.start config, .empty⟩, []⟩ config [] :=
  ⟨DeferredMap.names_ofTarget config.binary, rfl, Plugin.keeps_start config⟩

/-- The map of a run is that of the ranges that it read first. -/
theorem mapWith_start {calls : List GuestCall} {m : AddressMap}
    (hread : calls.findSome? GuestCall.reads? = some description)
    (hm : (DeferredMap.ofTarget target).mapWith description = .ok m) :
    m = .ofRanges (rangesRead target calls) := by
  cases description with
  | error fault => exact nomatch hm
  | ok text =>
      obtain ⟨-, hranges⟩ := AddressMap.ofDescription_eq_ok_iff.1 hm
      rw [hranges, rangesRead, hread]
      rfl

/-- **CAPTURED**.  Of a run that ends without a fault: the instructions of each block were
    given tokens in their order, and one has a token exactly if its size is at most 255 and
    its address lies in the range that decides on it, or, where the ranges of the binary are
    apart, in any of them.  These are the ranges read when the first instruction was
    translated.  The capture that stands in the output then has the offsets of the capture of
    the same build before and those of the tokens that were executed, and no other, so that
    what was only translated is not in it.  The output must not be the null device, where no
    capture stands; and it is read back if its number of instructions has room in eight
    bytes. -/
theorem captured_iff_executed (config : SessionConfig) (calls : List GuestCall)
    {host host₁ h h' : Host} {g : Guest} {s : Session}
    (hrun : runGuest config calls host = .ok g host₁)
    (hend : onEnd true g.plugin.session h = .ok s h')
    (hdevice : h.files.nodeAt? config.output ≠ some .nullDevice)
    (hlegacy : ∀ legacy ∈ config.legacy, ∀ loc, h.files.fileAt? legacy = some loc →
      h.files.fileAt? config.output ≠ some loc) :
    let ranges := rangesRead config.binary calls
    let m := AddressMap.ofRanges ranges
    g.given = calls.flatMap (GuestCall.gives m)
    ∧ (∀ vaddr size token, m.instructionAt (vaddr, size) = some token
      ↔ size ≤ 255 ∧ ∃ r, AddressMap.Decides ranges vaddr r ∧ r.contains vaddr = true
        ∧ token = ⟨(vaddr - r.start + r.offset).toInt64, size.toUInt8⟩)
    ∧ ((∀ r ∈ ranges, r.start < r.stop) → ranges.Pairwise MappedRange.Apart →
      ∀ vaddr size, (m.instructionAt (vaddr, size)).isSome = true
        ↔ size ≤ 255 ∧ ∃ r ∈ ranges, r.contains vaddr = true)
    ∧ ∃ digest capture, Digest.ofFile config.binary h = .ok digest h ∧ capture.digest = digest
      ∧ (∃ loc, h'.files.fileAt? config.output = some loc
        ∧ h'.files.find? loc = some (.file capture.encode))
      ∧ (capture.Countable → RichCapture.load config.output h' = .ok capture h')
      ∧ ∀ o, capture.table.contains o = true
        ↔ (∃ prior, RichCapture.ofBuild? h.files config.output digest = some prior
          ∧ prior.table.contains o = true) ∨ (executions m [] calls).Has o := by
  intro ranges m
  have hstart := Guest.keeps_start config
  -- as the run went through, the description that it read had a map
  have hm : ∀ description, calls.findSome? GuestCall.reads? = some description →
      (DeferredMap.ofTarget config.binary).mapWith description = .ok m := by
    intro description hread
    obtain ⟨m', hm'⟩ := hstart.mapWith_of_run hrun hread
    have hsame : m' = m := mapWith_start hread hm'
    exact hsame ▸ hm'
  obtain ⟨g', host', hrun', hkeeps, hgiven⟩ := hstart.run calls hm host
  cases hrun.symm.trans hrun'
  rw [List.nil_append] at hkeeps hgiven
  refine ⟨hgiven, fun vaddr size token => AddressMap.instructionAt_eq_some_iff,
    AddressMap.isSome_instructionAt_iff, ?_⟩
  obtain ⟨capture, h₁, hfinish, hfiles⟩ := finish_of_onEnd hend
  have houtcome := Session.outcome_of_finish hfinish (hkeeps.config ▸ hdevice)
    (hkeeps.config ▸ hlegacy)
  rw [hkeeps.config] at houtcome
  rcases houtcome with ⟨-, hnone, -⟩
    | ⟨digest, merged, loc, -, hdigest, hmade, hgives, -, hloc, hfile⟩
  · exact absurd rfl (hnone capture)
  · obtain rfl := hgives capture rfl
    rw [hfiles] at hloc hfile
    have hdigest' := digest_of_mergedAt hmade
    refine ⟨digest, capture, (answers_ofFile _).eq_ok_iff.2 ⟨hdigest, rfl⟩, hdigest',
      ⟨loc, hloc, hfile⟩, fun hcount => ?_, fun o => ?_⟩
    · have hfits : (Text.Utf8.encode capture.digest).length ≤ RichCapture.maxDigest := by
        rw [hdigest']
        exact fits_of_digestAt hdigest
      have hstored := RichCapture.stored_of_fileAt? hloc hfile hfits hcount
      exact (RichCapture.answers_load _).eq_ok_iff.2 ⟨hstored, rfl⟩
    · rw [contains_of_mergedAt hmade, hkeeps.plugin.tracks.contains_union_iff]

/-! ## A block with instructions that are skipped -/

private def guestCapture : RichCapture := ⟨Digest.ofBytes [1], 7, .ofListFirst [(0, 2)]⟩

private def guestConfig : SessionConfig := ⟨⟨[112]⟩, ⟨[99]⟩, none⟩

private def guestLine : String := "400000-401000 r-xp 0 08:01 7 p\n"

/-- Of four instructions, the second is too long and the third is no one of the binary.
    The last is executed twice, by a processor that moves to another thread, and the first
    is not. -/
private def guestCalls : List GuestCall :=
  [.processor 0 3,
    .block (.ok guestLine)
      [(0x400010, 4), (0x400014, 300), (0x500000, 2), (0x400020, 1)],
    .execution 0 3 1, .execution 1 3 1]

/-- The skipped two have no token; the executed one is in the capture, and the first, that is not
    executed and not of the earlier capture, is not. -/
theorem captured_iff_executed_skipped_between :
    ∃ g host s h', runGuest guestConfig guestCalls ⟨Session.filesWithCapture guestCapture, []⟩
        = .ok g host
      ∧ onEnd true g.plugin.session ⟨Session.filesWithCapture guestCapture, []⟩ = .ok s h'
      ∧ g.given = [[some ⟨0x10, 4⟩, none, none, some ⟨0x20, 1⟩]]
      ∧ ∃ capture, RichCapture.load ⟨[99]⟩ h' = .ok capture h'
        ∧ capture.table.contains 0x20 = true ∧ ¬ capture.table.contains 0x10 = true := by
  let m : AddressMap := .ofRanges (rangesRead ⟨[112]⟩ guestCalls)
  have hm : ∀ description, guestCalls.findSome? GuestCall.reads? = some description →
      (DeferredMap.ofTarget ⟨[112]⟩).mapWith description = .ok m := by
    intro description hread
    cases hread
    have hwell : (Mapping.ofText guestLine).2 = none := by decide +kernel
    exact AddressMap.ofDescription_eq_ok_iff.2 ⟨hwell, rfl⟩
  obtain ⟨g, host, hrun, hkeeps, -⟩ := (Guest.keeps_start guestConfig).run guestCalls hm
    ⟨Session.filesWithCapture guestCapture, []⟩
  obtain ⟨h₁, hfinish⟩ := Session.finish_of_filesWithCapture (ε := ProcessEnd) (c := guestCapture)
    hkeeps.config rfl (by decide) nofun []
  obtain ⟨events, hend⟩ := onEnd_of_finish
    (h := ⟨Session.filesWithCapture guestCapture, []⟩) hfinish
  have houtput := Session.fileAt?_filesWithCapture guestCapture
  have hdevice : (Session.filesWithCapture guestCapture).nodeAt? ⟨[99]⟩ ≠ some .nullDevice := by
    rw [FileTree.nodeAt?_of_fileAt? houtput rfl]
    exact nofun
  obtain ⟨hgiven, -, -, digest, capture, hdigest, -, -, hload, hcontains⟩ :=
    captured_iff_executed guestConfig guestCalls hrun hend hdevice nofun
  have hexecuted : executions m [] guestCalls = [(3, ⟨0x20, 1⟩), (3, ⟨0x20, 1⟩)] := by
    decide +kernel
  -- neither the earlier capture nor an execution has the first instruction
  have hfirst : ¬ capture.table.contains 0x10 = true := by
    intro hcaptured
    rcases (hcontains 0x10).1 hcaptured with ⟨prior, hprior, hstored⟩ | hhas
    · have hbefore := RichCapture.stored_of_fileAt? houtput (c := guestCapture) rfl
        (Digest.fits_ofBytes [1]) (by decide)
      have hprior' : (if guestCapture.digest = digest then some guestCapture else none)
          = some prior := (RichCapture.ofBuild?_of_stored hbefore digest).symm.trans hprior
      obtain ⟨-, hsame⟩ := Option.ite_none_right_eq_some.1 hprior'
      rw [← Option.some.inj hsame] at hstored
      exact absurd hstored (by decide)
    · obtain ⟨e, he, hoffset⟩ := hexecuted ▸ hhas
      rcases List.mem_pair.1 he with rfl | rfl <;> exact absurd hoffset (by decide)
  refine ⟨g, host, _, _, hrun, hend, ?_, capture, hload (RichCapture.countable_of_lacking hfirst),
    (hcontains 0x20).2 (Or.inr ?_), hfirst⟩
  · rw [hgiven]
    decide +kernel
  · exact ⟨(3, ⟨0x20, 1⟩), hexecuted ▸ List.mem_cons_self, rfl⟩

end Plugin

end ExecTruth
