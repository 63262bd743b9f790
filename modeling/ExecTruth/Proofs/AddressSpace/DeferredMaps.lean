import ExecTruth.AddressSpace.DeferredMap
import ExecTruth.Proofs.AddressSpace.Descriptions

/-! # Deferred maps in use — many requests and one map

    A deferred map serves requests one after the other.  The answers of its source count
    from zero, and an answer is usable if it is a description of which a map can be made
    (`Usable`).  As long as none was usable, a request reads one more answer and fails as
    that answer does; from the first usable one on, all requests are replied to from its
    map, and no answer is read any more (`replies_of_requests`).

    What earlier answers left in the name pool does not show in the map.  The target keeps
    its name there (`Names`), and that is all that making a map asks for
    (`request_of_none`), so the map is the one that a deferred map makes of this
    description alone (`alone_eq`). -/

namespace ExecTruth.DeferredMap

/-- What a deferred map is asked for. -/
inductive Request where
  /-- The file offset of an address. -/
  | resolve (vaddr : UInt64)
  /-- The map itself. -/
  | map
  deriving DecidableEq

/-- What a request is given. -/
inductive Reply where
  | offset (answer : Except MapsFault (Option UInt64))
  | map (answer : Except MapsFault AddressMap)

/-- The reply to a request from the map that there is, or from why there is none. -/
def Request.reply : Request → Except MapsFault AddressMap → Reply
  | .resolve vaddr, answer => .offset (answer.map fun m => m.resolve vaddr)
  | .map, answer => .map answer

def serve (source : MapsSource) (d : DeferredMap) : Request → Logged (Reply × DeferredMap)
  | .resolve vaddr => do
      let (answer, d) ← d.resolve source vaddr
      return (.offset answer, d)
  | .map => do
      let (answer, d) ← d.request source
      return (.map answer, d)

/-- Serves requests one after the other. -/
def serveAll (source : MapsSource) : List Request → DeferredMap →
    Logged (List Reply × DeferredMap)
  | [], d => return ([], d)
  | q :: rest, d => do
      let (reply, d) ← d.serve source q
      let (replies, d) ← serveAll source rest d
      return (reply :: replies, d)

/-- What a deferred map makes of a description that it is given first. -/
def alone (target : Path) (text : String) : Except MapsFault AddressMap :=
  ((ofTarget target).request (fun _ => .ok text) []).1.1

/-- A map can be made of the answer. -/
def Usable (target : Path) (answer : Except IoFault String) : Prop :=
  ∃ text m, answer = .ok text ∧ alone target text = .ok m

/-- Why no map can be made of an answer: it is none, or a line of it is rejected. -/
inductive Fails : Except IoFault String → MapsFault → Prop where
  | unread (fault : IoFault) : Fails (.error fault) (.io fault)
  | rejected {text : String} {fault : MapsFault} :
      Mapping.FirstRejected 1 (Text.lines text.toList) fault → Fails (.ok text) fault

/-- The map of a file that an answer gives, or why it gives none. -/
def mapOf (target : Path) : Except IoFault String → Except MapsFault AddressMap
  | .error fault => .error (.io fault)
  | .ok text => AddressMap.ofDescription target text

/-- The deferred map is one of the target, which has a name. -/
structure Names (d : DeferredMap) (target : Path) : Prop where
  target_eq : d.target = target
  named : ∃ id, d.pool.find? target = some id

variable {target : Path} {source source' : MapsSource} {d d' : DeferredMap} {m : AddressMap}
  {events events' : List Log.Event} {requests rest : List Request} {q : Request}

theorem names_ofTarget (target : Path) : (ofTarget target).Names target where
  target_eq := rfl
  named := ⟨_, (NamePool.find?_intern .empty target target).trans (if_pos rfl)⟩

@[simp] theorem reply_resolve (vaddr : UInt64) (m : AddressMap) :
    (Request.resolve vaddr).reply (.ok m) = .offset (.ok (m.resolve vaddr)) := rfl

@[simp] theorem reads_ofTarget (target : Path) : (ofTarget target).reads = 0 := rfl

/-! ## One request -/

/-- With a map, a request is given it, and nothing is read. -/
theorem request_of_some (h : d.map? = some m) (source : MapsSource) (events : List Log.Event) :
    d.request source events = ((.ok m, d), events) := by
  rw [request, h]
  rfl

/-- Without a map, the next answer is read; it gives the map that it gives in any pool. -/
theorem request_of_none (hd : d.Names target) (h : d.map? = none) (source : MapsSource)
    (events : List Log.Event) :
    ∃ d' events', d.request source events = ((mapOf target (source d.reads), d'), events')
      ∧ d'.Names target ∧ d'.reads = d.reads + 1
      ∧ d'.map? = (mapOf target (source d.reads)).toOption := by
  obtain ⟨own, pool, none?, reads⟩ := d
  obtain ⟨rfl, id, hid⟩ := hd
  cases (h : none? = none)
  have htarget : targetId ⟨own, pool, none, reads + 1⟩ = some id := hid
  rw [request]
  dsimp only
  rw [Nat.add_sub_cancel]
  cases hanswer : source reads with
  | error fault => exact ⟨⟨own, pool, none, reads + 1⟩, events, rfl, ⟨rfl, id, hid⟩, rfl, rfl⟩
  | ok text =>
      have hmap : (AddressMap.ofText text (some id) pool).1 = mapOf own (.ok text) :=
        AddressMap.ofText_eq hid
      have hname := AddressMap.find?_ofText hid text (some id)
      dsimp only
      rw [htarget, ← hmap]
      -- of what was read, only the map and the name of the target matter
      generalize AddressMap.ofText text (some id) pool = read at hname ⊢
      obtain ⟨answer, pool⟩ := read
      cases answer with
      | error fault =>
          exact ⟨⟨own, pool, none, reads + 1⟩, events, rfl, ⟨rfl, id, hname⟩, rfl, rfl⟩
      | ok m => exact ⟨⟨own, pool, some m, reads + 1⟩, _, rfl, ⟨rfl, id, hname⟩, rfl, rfl⟩

/-- A description that is given first is read as in any pool. -/
theorem alone_eq (target : Path) (text : String) : alone target text = mapOf target (.ok text) := by
  obtain ⟨d', events', hrequest, -⟩ :=
    request_of_none (names_ofTarget target) rfl (fun _ => .ok text) []
  rw [alone, hrequest]

/-- An answer gives no map exactly for one of the two reasons. -/
theorem mapOf_eq_error_iff {answer : Except IoFault String} {fault : MapsFault} :
    mapOf target answer = .error fault ↔ Fails answer fault := by
  cases answer with
  | error reason =>
      constructor
      · intro h
        cases h
        exact .unread reason
      · rintro ⟨⟩
        rfl
  | ok text =>
      constructor
      · intro h
        exact .rejected (AddressMap.ofDescription_eq_error_iff.1 h)
      · intro h
        cases h with
        | rejected hfirst => exact AddressMap.ofDescription_eq_error_iff.2 hfirst

/-- An answer is usable if it gives a map. -/
theorem usable_iff {answer : Except IoFault String} :
    Usable target answer ↔ ∃ m, mapOf target answer = .ok m := by
  cases answer with
  | error fault =>
      refine iff_of_false ?_ ?_
      · rintro ⟨text, m, htext, -⟩
        exact nomatch htext
      · rintro ⟨m, hm⟩
        exact nomatch hm
  | ok text =>
      constructor
      · rintro ⟨_, m, ⟨⟩, hm⟩
        exact ⟨m, (alone_eq target text).symm.trans hm⟩
      · rintro ⟨m, hm⟩
        exact ⟨text, m, rfl, (alone_eq target text).trans hm⟩

/-- One that is not usable has a reason, and fails with it. -/
theorem exists_fails_of_not_usable {answer : Except IoFault String} (h : ¬ Usable target answer) :
    ∃ fault, Fails answer fault ∧ mapOf target answer = .error fault := by
  cases hmap : mapOf target answer with
  | error fault => exact ⟨fault, mapOf_eq_error_iff.1 hmap, rfl⟩
  | ok m => exact absurd (usable_iff.2 ⟨m, hmap⟩) h

/-- A look-up tells the offset in the map that a request for it gives. -/
theorem resolve_of_request {answer : Except MapsFault AddressMap} (vaddr : UInt64)
    (h : d.request source events = ((answer, d'), events')) :
    ∃ events'', d.resolve source vaddr events
      = ((answer.map fun m => m.resolve vaddr, d'), events'') := by
  rw [resolve, Logged.bind_of_eq h]
  cases answer with
  | error fault => exact ⟨_, rfl⟩
  | ok m =>
      dsimp only
      cases hoffset : m.resolve vaddr with
      | none => exact ⟨_, by rw [Except.map, hoffset]; rfl⟩
      | some o => exact ⟨_, by rw [Except.map, hoffset]; rfl⟩

/-- Serving is replying from what the request gives. -/
theorem serve_of_request {answer : Except MapsFault AddressMap} (q : Request)
    (h : d.request source events = ((answer, d'), events')) :
    ∃ events'', d.serve source q events = ((q.reply answer, d'), events'') := by
  cases q with
  | resolve vaddr =>
      obtain ⟨events'', hresolve⟩ := resolve_of_request vaddr h
      exact ⟨events'', by rw [serve, Logged.bind_of_eq hresolve]; rfl⟩
  | map => exact ⟨events', by rw [serve, Logged.bind_of_eq h]; rfl⟩

/-- The map is of a description that the source gives. -/
def Given (source : MapsSource) (target : Path) (m : AddressMap) : Prop :=
  ∃ n text, source n = .ok text ∧ mapOf target (.ok text) = .ok m

/-- The deferred map is one of the target, and has no map but of the source. -/
structure DrawsFrom (d : DeferredMap) (source : MapsSource) (target : Path) : Prop where
  names : d.Names target
  given : ∀ m, d.map? = some m → Given source target m

theorem drawsFrom_ofTarget (source : MapsSource) (target : Path) :
    (ofTarget target).DrawsFrom source target where
  names := names_ofTarget target
  given := nofun

/-- A request keeps that up, and is answered with no other map either. -/
theorem DrawsFrom.request (h : d.DrawsFrom source target) (events : List Log.Event) :
    ∃ answer d' events', d.request source events = ((answer, d'), events')
      ∧ d'.DrawsFrom source target ∧ ∀ m, answer = .ok m → Given source target m := by
  cases hmap : d.map? with
  | some m =>
      refine ⟨.ok m, d, events, request_of_some hmap source events, h, fun m' hm => ?_⟩
      cases hm
      exact h.given m hmap
  | none =>
      obtain ⟨d', events', hrequest, hd', -, hmap'⟩ := request_of_none h.names hmap source events
      have hanswer : ∀ m, mapOf target (source d.reads) = .ok m → Given source target m := by
        intro m hm
        cases hread : source d.reads with
        | error fault =>
            rw [hread] at hm
            exact nomatch hm
        | ok text => exact ⟨d.reads, text, hread, hread ▸ hm⟩
      refine ⟨_, d', events', hrequest, ⟨hd', fun m hm => ?_⟩, hanswer⟩
      -- a map that is there now was made of this answer
      rw [hmap'] at hm
      cases hread : mapOf target (source d.reads) with
      | error fault =>
          rw [hread] at hm
          exact nomatch hm
      | ok m' =>
          rw [hread] at hm
          cases hm
          exact hanswer m hread

/-! ## Many requests -/

/-- The first request is served in front of the others. -/
theorem serveAll_cons {reply : Reply} {replies : List Reply} {d'' : DeferredMap}
    {events'' : List Log.Event} (hserve : d.serve source q events = ((reply, d'), events'))
    (hrest : serveAll source rest d' events' = ((replies, d''), events'')) :
    serveAll source (q :: rest) d events = ((reply :: replies, d''), events'') := by
  rw [serveAll, Logged.bind_of_eq hserve]
  dsimp only
  rw [Logged.bind_of_eq hrest]
  rfl

/-- Requests may be served in two parts. -/
theorem serveAll_append {front back : List Request} {replies replies' : List Reply}
    {d'' : DeferredMap} {events'' : List Log.Event}
    (hfront : serveAll source front d events = ((replies, d'), events'))
    (hback : serveAll source back d' events' = ((replies', d''), events'')) :
    serveAll source (front ++ back) d events = ((replies ++ replies', d''), events'') := by
  -- the map and the events are those that the requests before have left
  induction front generalizing d events replies with
  | nil =>
      cases hfront
      exact hback
  | cons q front ih =>
      rcases hserve : d.serve source q events with ⟨⟨reply, d₁⟩, events₁⟩
      rcases hrest : serveAll source front d₁ events₁ with ⟨⟨replies₁, d₂⟩, events₂⟩
      cases (serveAll_cons hserve hrest).symm.trans hfront
      exact serveAll_cons hserve (ih hrest)

/-- Every request has a reply. -/
theorem length_serveAll (source : MapsSource) (requests : List Request) (d : DeferredMap)
    (events : List Log.Event) :
    (serveAll source requests d events).1.1.length = requests.length := by
  induction requests generalizing d events with
  | nil => rfl
  | cons q rest ih =>
      rcases hserve : d.serve source q events with ⟨⟨reply, d'⟩, events'⟩
      rw [serveAll_cons hserve rfl, List.length_cons, ih, List.length_cons]

/-- With a map, all requests are replied to from it, and nothing else happens. -/
theorem serveAll_of_some (h : d.map? = some m) (source : MapsSource) (requests : List Request)
    (events : List Log.Event) :
    ∃ events', serveAll source requests d events
      = ((requests.map fun q => q.reply (.ok m), d), events') := by
  -- no request changes the map, so only the events are other ones at each step
  induction requests generalizing events with
  | nil => exact ⟨events, rfl⟩
  | cons q rest ih =>
      obtain ⟨events₁, hserve⟩ := serve_of_request q (request_of_some h source events)
      obtain ⟨events₂, hrest⟩ := ih events₁
      exact ⟨events₂, serveAll_cons hserve hrest⟩

/-- Without a map, requests fail one by one as the next answers do, as long as these do. -/
theorem serveAll_of_failing (hd : d.Names target) (h : d.map? = none) (source : MapsSource)
    (requests : List Request)
    (hfails : ∀ j < requests.length, ∃ fault, mapOf target (source (d.reads + j)) = .error fault)
    (events : List Log.Event) :
    ∃ d' events', serveAll source requests d events
        = ((requests.mapIdx fun j q => q.reply (mapOf target (source (d.reads + j))), d'), events')
      ∧ d'.Names target ∧ d'.map? = none ∧ d'.reads = d.reads + requests.length := by
  induction requests generalizing d events with
  | nil => exact ⟨d, events, rfl, hd, h, rfl⟩
  | cons q rest ih =>
      obtain ⟨d₁, events₁, hrequest, hd₁, hreads₁, hmap₁⟩ :=
        request_of_none hd h source events
      obtain ⟨events₁', hserve⟩ := serve_of_request q hrequest
      obtain ⟨fault, hfault⟩ := hfails 0 (Nat.zero_lt_succ _)
      have hnone : d₁.map? = none := by
        rw [hmap₁, ← Nat.add_zero d.reads, hfault]
        rfl
      -- the answer that is read next is counted from the ones that were read
      have hshift : ∀ j, d₁.reads + j = d.reads + (j + 1) := by
        intro j
        rw [hreads₁, Nat.add_assoc, Nat.add_comm 1]
      obtain ⟨d₂, events₂, hrest, hd₂, hmap₂, hreads₂⟩ := ih hd₁ hnone (fun j hj => by
        rw [hshift]
        exact hfails (j + 1) (Nat.succ_lt_succ hj)) events₁'
      refine ⟨d₂, events₂, ?_, hd₂, hmap₂, hreads₂.trans (hshift _)⟩
      rw [serveAll_cons hserve hrest, List.mapIdx_cons]
      simp only [hshift, Nat.add_zero]

/-- From the request that reads a usable answer on, replies come from its map. -/
theorem serveAll_of_usable (hd : d.Names target) (h : d.map? = none)
    (hm : mapOf target (source d.reads) = .ok m) (q : Request) (rest : List Request)
    (events : List Log.Event) :
    ∃ d' events', serveAll source (q :: rest) d events
        = (((q :: rest).map fun q => q.reply (.ok m), d'), events')
      ∧ d'.map? = some m ∧ d'.reads = d.reads + 1 := by
  obtain ⟨d', events₁, hrequest, -, hreads, hmap⟩ :=
    request_of_none hd h source events
  rw [hm] at hrequest hmap
  obtain ⟨events₂, hserve⟩ := serve_of_request q hrequest
  obtain ⟨events₃, hrest⟩ := serveAll_of_some hmap source rest events₂
  exact ⟨d', events₃, serveAll_cons hserve hrest, hmap, hreads⟩

/-- Up to the first usable answer each request fails as its own answer does, and from there on all
    are replied to from its map; the answers behind it are not read. -/
theorem serveAll_of_first {k : Nat} (hm : mapOf target (source k) = .ok m)
    (hfails : ∀ j < k, ∃ fault, mapOf target (source j) = .error fault)
    (hk : k < requests.length) (events : List Log.Event) :
    ∃ d events', serveAll source requests (ofTarget target) events
        = ((((requests.take k).mapIdx fun j q => q.reply (mapOf target (source j)))
            ++ (requests.drop k).map fun q => q.reply (.ok m), d), events')
      ∧ d.map? = some m ∧ d.reads = k + 1 := by
  have hlength : (requests.take k).length = k := List.length_take_of_le (Nat.le_of_lt hk)
  obtain ⟨d₁, events₁, hfront, hd₁, hnone, hreads⟩ := serveAll_of_failing
    (names_ofTarget target) rfl source (requests.take k) (fun j hj => by
      rw [reads_ofTarget, Nat.zero_add]
      exact hfails j (hlength ▸ hj)) events
  simp only [reads_ofTarget, Nat.zero_add, hlength] at hfront hreads
  -- the request that reads the answer
  have hback : requests.drop k = requests[k] :: requests.drop (k + 1) :=
    List.drop_eq_getElem_cons hk
  have hread : mapOf target (source d₁.reads) = .ok m := by rw [hreads, hm]
  obtain ⟨d₂, events₂, hrest, hmap, hreads'⟩ :=
    serveAll_of_usable hd₁ hnone hread requests[k] (requests.drop (k + 1)) events₁
  rw [← hback] at hrest
  refine ⟨d₂, events₂, ?_, hmap, by rw [hreads', hreads]⟩
  have hall := serveAll_append hfront hrest
  rwa [List.take_append_drop] at hall

/-! ## What is not read -/

/-- A request does not depend on answers other than the one that it reads. -/
theorem request_congr (h : d.map? = none → source' d.reads = source d.reads) :
    d.request source' = d.request source := by
  rw [request, request]
  cases hmap : d.map? with
  | some m => rfl
  | none =>
      dsimp only
      rw [Nat.add_sub_cancel, h hmap]

/-- Nor does serving one. -/
theorem serve_congr (h : d.map? = none → source' d.reads = source d.reads) (q : Request) :
    d.serve source' q = d.serve source q := by
  cases q with
  | resolve vaddr => rw [serve, serve, resolve, resolve, request_congr h]
  | map => rw [serve, serve, request_congr h]

/-- Serving reads one answer without a map, and none with one. -/
theorem reads_of_serve (hd : d.Names target) (source : MapsSource) (q : Request)
    (events : List Log.Event) :
    ∃ reply d' events', d.serve source q events = ((reply, d'), events') ∧ d'.Names target
      ∧ d'.reads = if d.map? = none then d.reads + 1 else d.reads := by
  cases hmap : d.map? with
  | some m =>
      obtain ⟨events', hserve⟩ :=
        serve_of_request q (request_of_some hmap source events)
      exact ⟨_, d, events', hserve, hd, rfl⟩
  | none =>
      obtain ⟨d', events₁, hrequest, hd', hreads, -⟩ :=
        request_of_none hd hmap source events
      obtain ⟨events', hserve⟩ := serve_of_request q hrequest
      exact ⟨_, d', events', hserve, hd', hreads⟩

/-- No answer is given back. -/
theorem reads_le_serveAll (hd : d.Names target) (source : MapsSource) (requests : List Request)
    (events : List Log.Event) : d.reads ≤ (serveAll source requests d events).1.2.reads := by
  induction requests generalizing d events with
  | nil => exact Nat.le_refl _
  | cons q rest ih =>
      obtain ⟨reply, d', events', hserve, hd', hreads⟩ := reads_of_serve hd source q events
      have hle : d.reads ≤ d'.reads := by
        rw [hreads]
        split <;> omega
      rw [serveAll_cons hserve rfl]
      exact Nat.le_trans hle (ih hd' events')

/-- Sources that agree on what is read are served from alike. -/
theorem serveAll_congr (hd : d.Names target) (events : List Log.Event)
    (hagree : ∀ n, d.reads ≤ n → n < (serveAll source requests d events).1.2.reads →
      source' n = source n) :
    serveAll source' requests d events = serveAll source requests d events := by
  induction requests generalizing d events with
  | nil => rfl
  | cons q rest ih =>
      obtain ⟨reply, d', events', hserve, hd', hreads⟩ := reads_of_serve hd source q events
      have hall := serveAll_cons (q := q) hserve (rfl : serveAll source rest d' events' = _)
      have hle : d'.reads ≤ (serveAll source rest d' events').1.2.reads :=
        reads_le_serveAll hd' source rest events'
      rw [hall] at hagree
      -- the sources agree on the answer that this request reads, if it reads one
      have hone : d.map? = none → source' d.reads = source d.reads := by
        intro hmap
        rw [if_pos hmap] at hreads
        exact hagree _ (Nat.le_refl _) (Nat.lt_of_lt_of_le (hreads ▸ Nat.lt_succ_self _) hle)
      have hrest := ih hd' events' fun n hn hlt => by
        refine hagree n (Nat.le_trans ?_ hn) hlt
        rw [hreads]
        split <;> omega
      rw [hall]
      exact serveAll_cons ((congrFun (serve_congr hone q) events).trans hserve) hrest

/-! ## The whole run -/

/-- If no answer is usable, each request fails as its own does. -/
theorem replies_of_unusable (hnone : ∀ j < requests.length, ¬ Usable target (source j))
    (events : List Log.Event) :
    let run := serveAll source requests (ofTarget target) events
    (∀ j q, requests[j]? = some q →
      ∃ fault, Fails (source j) fault ∧ run.1.1[j]? = some (q.reply (.error fault)))
    ∧ run.1.2.reads = requests.length ∧ run.1.2.map? = none := by
  obtain ⟨d, events', hrun, -, hmap, hreads⟩ := serveAll_of_failing
    (names_ofTarget target) rfl source requests (fun j hj => by
      obtain ⟨fault, -, hfault⟩ := exists_fails_of_not_usable (hnone j hj)
      exact ⟨fault, by rw [reads_ofTarget, Nat.zero_add, hfault]⟩) events
  -- a fresh map has read nothing, so the answers are counted from the first
  simp only [reads_ofTarget, Nat.zero_add] at hrun hreads
  intro run
  rw [show run = _ from hrun]
  refine ⟨fun j q hq => ?_, hreads, hmap⟩
  obtain ⟨hj, -⟩ := List.getElem?_eq_some_iff.1 hq
  obtain ⟨fault, hfault, hanswer⟩ := exists_fails_of_not_usable (hnone j hj)
  refine ⟨fault, hfault, ?_⟩
  rw [List.getElem?_mapIdx, hq, Option.map_some, hanswer]

/-- If one is, the requests in front fail, and the others are replied to from its map. -/
theorem replies_of_first {k : Nat} (hm : mapOf target (source k) = .ok m)
    (hfirst : ∀ j < k, ¬ Usable target (source j)) (hk : k < requests.length)
    (events : List Log.Event) :
    let run := serveAll source requests (ofTarget target) events
    (∀ j q, requests[j]? = some q →
      (j < k → ∃ fault, Fails (source j) fault ∧ run.1.1[j]? = some (q.reply (.error fault)))
      ∧ (k ≤ j → run.1.1[j]? = some (q.reply (.ok m))))
    ∧ run.1.2.reads = k + 1 ∧ run.1.2.map? = some m := by
  obtain ⟨d, events', hrun, hmap, hreads⟩ := serveAll_of_first hm (fun j hj => by
    obtain ⟨fault, -, hfault⟩ := exists_fails_of_not_usable (hfirst j hj)
    exact ⟨fault, hfault⟩) hk events
  have hfront : ((requests.take k).mapIdx fun j q =>
      q.reply (mapOf target (source j))).length = k := by
    rw [List.length_mapIdx, List.length_take_of_le (Nat.le_of_lt hk)]
  intro run
  rw [show run = _ from hrun]
  refine ⟨fun j q hq => ⟨fun hj => ?_, fun hj => ?_⟩, hreads, hmap⟩
  · obtain ⟨fault, hfault, hanswer⟩ := exists_fails_of_not_usable (hfirst j hj)
    refine ⟨fault, hfault, ?_⟩
    rw [List.getElem?_append_left (hfront.symm ▸ hj), List.getElem?_mapIdx,
      List.getElem?_take_of_lt hj, hq, Option.map_some, hanswer]
  · -- from the first usable answer on the place is counted behind the replies that failed
    rw [List.getElem?_append_right (hfront.symm ▸ hj), hfront, List.getElem?_map,
      List.getElem?_drop, Nat.add_sub_cancel' hj, hq, Option.map_some]

/-- **ONE BUILD**.  Let answer `k` be the first usable one.  Every request before that reads
    one answer and fails as it does; request `k` and all later ones are replied to from the
    map of answer `k`, which is the one that a deferred map makes of it alone; and `m`
    requests read `min m (k + 1)` answers.  If no answer is usable, every request reads one
    and fails as it does.  Answers that are not read have no part in the run. -/
theorem replies_of_requests (target : Path) (source : MapsSource) (requests : List Request)
    (events : List Log.Event) :
    let run := serveAll source requests (ofTarget target) events
    let replies := run.1.1
    let after := run.1.2
    replies.length = requests.length
    ∧ (∀ k text m, source k = .ok text → alone target text = .ok m →
      (∀ j < k, ¬ Usable target (source j)) →
      (∀ j q, requests[j]? = some q →
        (j < k → ∃ fault, Fails (source j) fault ∧ replies[j]? = some (q.reply (.error fault)))
        ∧ (k ≤ j → replies[j]? = some (q.reply (.ok m))))
      ∧ after.reads = min requests.length (k + 1)
      ∧ (k < requests.length → after.map? = some m))
    ∧ ((∀ j < requests.length, ¬ Usable target (source j)) →
      (∀ j q, requests[j]? = some q →
        ∃ fault, Fails (source j) fault ∧ replies[j]? = some (q.reply (.error fault)))
      ∧ after.reads = requests.length ∧ after.map? = none)
    ∧ ∀ source', (∀ n < after.reads, source' n = source n) →
      serveAll source' requests (ofTarget target) events = run := by
  intro run replies after
  refine ⟨length_serveAll source requests _ events, fun k text m hk halone hfirst => ?_,
    fun hnone => replies_of_unusable hnone events,
    fun source' hagree => serveAll_congr (names_ofTarget target) events fun n _ => hagree n⟩
  have hm : mapOf target (source k) = .ok m := by rw [hk, ← alone_eq, halone]
  by_cases hlong : k < requests.length
  · obtain ⟨hreplies, hreads, hmap⟩ := replies_of_first hm hfirst hlong events
    refine ⟨hreplies, ?_, fun _ => hmap⟩
    rw [Nat.min_eq_right hlong]
    exact hreads
  · -- the run ends before the usable answer
    have hshort : requests.length ≤ k := Nat.le_of_not_lt hlong
    obtain ⟨hfails, hreads, -⟩ := replies_of_unusable
      (fun j hj => hfirst j (Nat.lt_of_lt_of_le hj hshort)) events
    refine ⟨fun j q hq => ⟨fun _ => hfails j q hq, fun hj => ?_⟩, ?_, fun hk => absurd hk hlong⟩
    · obtain ⟨hj', -⟩ := List.getElem?_eq_some_iff.1 hq
      exact absurd hj' (Nat.not_lt.2 (Nat.le_trans hshort hj))
    · rw [Nat.min_eq_left (Nat.le_succ_of_le hshort)]
      exact hreads

/-- No answer, a description that breaks off behind a line of another file, and descriptions
    from then on. -/
def lateSource : MapsSource
  | 0 => .error .missing
  | 1 => .ok "100-200 r-xp 0 08:01 9 /lib/c\n300-400 r-xp"
  | 2 => .ok "1000-2000 r-xp 200 08:01 7 /bin//a\n"
  | _ => .ok ""

/-- The source has no answer, then one with a bad second line, and then one that is usable: the
    third request and the fourth are replied to from its map, and there is no fourth reading. -/
theorem replies_of_requests_third_answer :
    ∃ replies after events,
      serveAll lateSource [.resolve 0x1010, .map, .resolve 0x1010, .resolve 0x2000]
          (ofTarget (.ofString "/bin/a")) [] = ((replies, after), events)
        ∧ replies[1]? = some (.map (.error (.malformed 2 "300-400 r-xp")))
        ∧ replies[2]? = some (.offset (.ok (some 0x210)))
        ∧ replies[3]? = some (.offset (.ok none)) ∧ after.reads = 3 := by
  have hlaws := replies_of_requests (.ofString "/bin/a") lateSource
    [.resolve 0x1010, .map, .resolve 0x1010, .resolve 0x2000] []
  rcases hrun : serveAll lateSource [.resolve 0x1010, .map, .resolve 0x1010, .resolve 0x2000]
    (ofTarget (.ofString "/bin/a")) [] with ⟨⟨replies, after⟩, events⟩
  rw [hrun] at hlaws
  obtain ⟨-, hfirst, -, -⟩ := hlaws
  have halone : alone (.ofString "/bin/a") "1000-2000 r-xp 200 08:01 7 /bin//a\n"
      = .ok (.ofRanges [⟨0x1000, 0x2000, 0x200⟩]) := by
    rw [alone_eq, mapOf, AddressMap.ofDescription_eq_ok_iff]
    exact ⟨rfl, rfl⟩
  have hbroken : mapOf (.ofString "/bin/a") (lateSource 1)
      = .error (.malformed 2 "300-400 r-xp") := by
    rw [lateSource, mapOf]
    decide +kernel
  have hunusable : ∀ j < 2, ¬ Usable (.ofString "/bin/a") (lateSource j) := by
    intro j hj husable
    obtain ⟨m, hm⟩ := usable_iff.1 husable
    obtain rfl | rfl : j = 0 ∨ j = 1 := by omega
    · exact nomatch hm
    · exact nomatch hbroken.symm.trans hm
  obtain ⟨hreplies, hreads, -⟩ := hfirst 2 _ _ rfl halone hunusable
  obtain ⟨fault, hfault, hsecond⟩ := (hreplies 1 .map rfl).1 (by decide)
  have hwhy : fault = .malformed 2 "300-400 r-xp" :=
    Except.error.inj ((mapOf_eq_error_iff.2 hfault).symm.trans hbroken)
  rw [hwhy] at hsecond
  have hthird := (hreplies 2 (.resolve 0x1010) rfl).2 (by decide)
  have hfourth := (hreplies 3 (.resolve 0x2000) rfl).2 (by decide)
  have hinside : (AddressMap.ofRanges [⟨0x1000, 0x2000, 0x200⟩]).resolve 0x1010 = some 0x210 := by
    decide +kernel
  have hbehind : (AddressMap.ofRanges [⟨0x1000, 0x2000, 0x200⟩]).resolve 0x2000 = none := by
    decide +kernel
  rw [reply_resolve, hinside] at hthird
  rw [reply_resolve, hbehind] at hfourth
  exact ⟨replies, after, events, rfl, hsecond, hthird, hfourth, hreads⟩

end ExecTruth.DeferredMap
