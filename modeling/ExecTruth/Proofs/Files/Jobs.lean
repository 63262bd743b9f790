import ExecTruth.Files.Job
import ExecTruth.Proofs.Files.Walks

/-! # Jobs step by step — what a job on files leaves behind

    A job that succeeds has succeeded at each of its steps (`bind_eq_ok_iff`), so jobs
    are taken apart at their results, without looking at how they are run.

    A tree tells what every path opens for writing, if anything (`targetAt?`): a file, there or
    yet to be made, or a device.  Opening it changes no more than that the file is empty
    (`create_of_targetAt?`), and where nothing can be opened, nothing changes
    (`create_of_no_target`).

    Writing an emission through a path fills exactly the file that the path leads to
    (`sendTo_of_fileAt?`); where it leads to none, nothing changes, and only a device can
    have taken the bytes (`sendTo_of_no_file`). -/

namespace ExecTruth

open Job

namespace FileTree

private theorem putIn_cons (loc : Location) (node : Node) (e : Location × Node)
    (r : List (Location × Node)) :
    putIn loc node (e :: r) = if e.1 = loc then (loc, node) :: r else e :: putIn loc node r := rfl

private theorem putIn_putIn (loc : Location) (a b : Node) (l : List (Location × Node)) :
    putIn loc b (putIn loc a l) = putIn loc b l := by
  induction l with
  | nil => exact if_pos rfl
  | cons e r ih =>
      by_cases he : e.1 = loc
      · rw [putIn_cons, if_pos he, putIn_cons, if_pos rfl, putIn_cons, if_pos he]
      · rw [putIn_cons, if_neg he, putIn_cons, if_neg he, ih, putIn_cons, if_neg he]

/-- The last thing put at a location is what stands there. -/
@[simp] theorem put_put (t : FileTree) (loc : Location) (a b : Node) :
    (t.put loc a).put loc b = t.put loc b := by
  rw [put, put, put, putIn_putIn]

end FileTree

/-! ## What a path opens -/

/-- What a place is, or is to become, for writing. -/
def Place.target? : Place → Option Target
  | .absent dir name => some (.file (dir ++ [name]))
  | .found loc (.file _) => some (.file loc)
  | .found _ .nullDevice => some .nullDevice
  | .found _ .fullDevice => some .fullDevice
  | .found _ _ => none

namespace FileTree

variable {t : FileTree} {p : Path} {loc : Location} {target : Target}

/-- What a path opens for writing. -/
def targetAt? (t : FileTree) (p : Path) : Option Target :=
  ((Walk.run .file t p).toOption.map Place.target?).join

/-- The paths that open a file are those at which a file is, or is to become. -/
theorem targetAt?_eq_file_iff : t.targetAt? p = some (.file loc) ↔ t.fileAt? p = some loc := by
  rw [targetAt?, fileAt?]
  cases Walk.run .file t p with
  | error e => simp [Except.toOption]
  | ok place =>
      cases place with
      | absent dir name => simp [Except.toOption, Place.target?, Place.file?]
      | found l node => cases node <;> simp [Except.toOption, Place.target?, Place.file?]

/-- What a path opens that leads to no file is a device. -/
theorem targetAt?_of_no_file (hloc : t.fileAt? p = none) (htarget : t.targetAt? p = some target) :
    target = .nullDevice ∧ t.nodeAt? p = some .nullDevice
      ∨ target = .fullDevice ∧ t.nodeAt? p = some .fullDevice := by
  unfold targetAt? at htarget
  unfold fileAt? at hloc
  cases hrun : Walk.run .file t p with
  | error e => rw [hrun] at htarget; exact nomatch htarget
  | ok place =>
      rw [hrun] at htarget hloc
      cases place with
      | absent dir name => exact nomatch hloc
      | found l node =>
          -- of the things that are found, only the two devices open without being files
          have hnode := nodeAt?_of_run hrun
          cases node with
          | file old => exact nomatch hloc
          | directory | link _ => exact nomatch htarget
          | nullDevice => cases htarget; exact Or.inl ⟨rfl, hnode⟩
          | fullDevice => cases htarget; exact Or.inr ⟨rfl, hnode⟩

end FileTree

namespace Job

variable {ε ε' α β : Type} {h h' : Host}

/-! ## Steps -/

@[simp] theorem files_apply (h : Host) : (files : Job ε FileTree) h = .ok h.files h := rfl

@[simp] theorem ofExcept_ok (a : α) (h : Host) :
    (ofExcept (.ok a) : Job ε α) h = .ok a h := rfl

@[simp] theorem ofExcept_error (e : ε) (h : Host) :
    (ofExcept (.error e) : Job ε α) h = .error e h := rfl

theorem ofLogged_of_eq {l : Logged α} {events : List Log.Event} {a : α}
    (hl : l h.events = (a, events)) : (ofLogged l : Job ε α) h = .ok a ⟨h.files, events⟩ := by
  show (let r := l h.events; EStateM.Result.ok r.1 { h with events := r.2 }) = _
  rw [hl]

theorem ite_run (c : Prop) [Decidable c] (a b : Job ε α) (h : Host) :
    (if c then a else b) h = if c then a h else b h := by
  split <;> rfl

/-- Behind a job that succeeds, the next is run on the host that it leaves. -/
theorem bind_of_ok {job : Job ε α} {next : α → Job ε β} {a : α} (hjob : job h = .ok a h') :
    (job >>= next) h = next a h' := by
  show EStateM.bind job next h = _
  rw [EStateM.bind, hjob]

/-- Behind a job that fails, nothing is run. -/
theorem bind_of_error {job : Job ε α} {next : α → Job ε β} {e : ε}
    (hjob : job h = .error e h') : (job >>= next) h = .error e h' := by
  show EStateM.bind job next h = _
  rw [EStateM.bind, hjob]

/-- A sequence of two jobs succeeds if both do. -/
theorem bind_eq_ok_iff {job : Job ε α} {next : α → Job ε β} {b : β} {h'' : Host} :
    (job >>= next) h = .ok b h'' ↔ ∃ a h', job h = .ok a h' ∧ next a h' = .ok b h'' := by
  cases hjob : job h with
  | ok a h' =>
      rw [bind_of_ok hjob]
      constructor
      · exact fun hb => ⟨a, h', rfl, hb⟩
      · rintro ⟨a', h₁, he, hb⟩
        cases he
        exact hb
  | error e h' => rw [bind_of_error hjob]; simp

/-- Wrapping faults does not change when a job succeeds. -/
theorem wrap_eq_ok_iff {f : ε → ε'} {job : Job ε α} {a : α} :
    wrap f job h = .ok a h' ↔ job h = .ok a h' := by
  rw [wrap, EStateM.adaptExcept]
  cases job h <;> simp

/-- A sequence of two jobs fails if one of them does, the second after the first. -/
theorem bind_eq_error_iff {job : Job ε α} {next : α → Job ε β} {e : ε} {h'' : Host} :
    (job >>= next) h = .error e h''
      ↔ job h = .error e h'' ∨ ∃ a h', job h = .ok a h' ∧ next a h' = .error e h'' := by
  cases hjob : job h with
  | ok a h' =>
      rw [bind_of_ok hjob]
      constructor
      · intro hnext
        exact Or.inr ⟨a, h', rfl, hnext⟩
      · rintro (he | ⟨a', h₁, he, hnext⟩)
        · exact nomatch he
        · cases he
          exact hnext
  | error e' h' => rw [bind_of_error hjob]; simp

/-- A wrapped job fails where the job does, with the fault in its new form. -/
theorem wrap_eq_error_iff {f : ε → ε'} {job : Job ε α} {e' : ε'} :
    wrap f job h = .error e' h' ↔ ∃ e, job h = .error e h' ∧ f e = e' := by
  rw [wrap, EStateM.adaptExcept]
  cases job h with
  | ok a h₁ => simp
  | error e h₁ =>
      constructor
      · intro heq
        cases heq
        exact ⟨e, rfl, rfl⟩
      · rintro ⟨e₁, heq, rfl⟩
        cases heq
        rfl

theorem attempt_of_ok {job : Job ε α} {a : α} (hjob : job h = .ok a h') :
    (attempt job : Job ε' _) h = .ok (.ok a) h' := by
  rw [attempt, hjob]

theorem attempt_of_error {job : Job ε α} {e : ε} (hjob : job h = .error e h') :
    (attempt job : Job ε' _) h = .ok (.error e) h' := by
  rw [attempt, hjob]

/-! ## Looking without touching -/

/-- The job only looks at the files: its answer is `r` of the tree, and it changes nothing. -/
def Answers (job : Job ε α) (r : FileTree → Except ε α) : Prop :=
  ∀ h : Host, job h = ofExcept (r h.files) h

/-- A job that answers a question gives what the tree says, and leaves the host. -/
theorem Answers.eq_ok_iff {job : Job ε α} {r : FileTree → Except ε α} (hjob : job.Answers r)
    {a : α} : job h = .ok a h' ↔ r h.files = .ok a ∧ h' = h := by
  rw [hjob h]
  cases r h.files <;> simp [eq_comm]

theorem Answers.eq_error {job : Job ε α} {r : FileTree → Except ε α} (hjob : job.Answers r)
    {e : ε} (hr : r h.files = .error e) : job h = .error e h := by
  rw [hjob h, hr, ofExcept_error]

theorem answers_ofExcept (r : Except ε α) : (ofExcept r : Job ε α).Answers fun _ => r :=
  fun _ => rfl

theorem answers_pure (a : α) : (pure a : Job ε α).Answers fun _ => .ok a := fun _ => rfl

theorem answers_files : (files : Job ε FileTree).Answers fun t => .ok t := fun _ => rfl

/-- Questions asked one after the other are one question, as none changes the tree. -/
theorem Answers.bind {job : Job ε α} {next : α → Job ε β} {r : FileTree → Except ε α}
    {r' : α → FileTree → Except ε β} (hjob : job.Answers r)
    (hnext : ∀ a, (next a).Answers (r' a)) :
    (job >>= next).Answers fun t => r t >>= fun a => r' a t := by
  intro h
  have hh := hjob h
  dsimp only
  cases hr : r h.files with
  | ok a =>
      rw [hr, ofExcept_ok] at hh
      rw [bind_of_ok hh, hnext a h]
      rfl
  | error e =>
      rw [hr, ofExcept_error] at hh
      rw [bind_of_error hh]
      rfl

/-- What comes behind a look goes on from the answer. -/
theorem Answers.bind_apply {job : Job ε α} {r : FileTree → Except ε α} (hjob : job.Answers r)
    (next : α → Job ε β) (h : Host) : (job >>= next) h = (ofExcept (r h.files) >>= next) h := by
  show EStateM.bind job next h = _
  rw [EStateM.bind, hjob h]
  rfl

/-- The fault of a question is wrapped as it is answered. -/
theorem Answers.wrap {job : Job ε α} {r : FileTree → Except ε α} (f : ε → ε')
    (hjob : job.Answers r) : (Job.wrap f job).Answers fun t => (r t).mapError f := by
  intro h
  rw [Job.wrap, EStateM.adaptExcept]
  dsimp only
  rw [hjob h]
  cases r h.files <;> rfl

/-- An attempted question always has an answer, which may be a fault. -/
theorem Answers.attempt {job : Job ε α} {r : FileTree → Except ε α} (hjob : job.Answers r) :
    (Job.attempt job : Job ε' (Except ε α)).Answers fun t => .ok (r t) := by
  intro h
  rw [Job.attempt]
  dsimp only
  rw [hjob h]
  cases r h.files <;> rfl

/-- What reading the thing at a path hands out. -/
def sourceAt (p : Path) (t : FileTree) : Except IoFault Source :=
  t.locate p >>= fun place => .ok (sourceOf place.2)

theorem answers_openSource (p : Path) : (openSource p).Answers (sourceAt p) :=
  answers_files.bind fun t => (answers_ofExcept (t.locate p)).bind fun _ => answers_pure _

/-- What reading the thing at a path to its end gives. -/
def contentsAt (p : Path) (t : FileTree) : Except IoFault (List UInt8) :=
  sourceAt p t >>= Source.readAll

theorem answers_readAll (p : Path) : (readAll p).Answers (contentsAt p) :=
  (answers_openSource p).bind fun s => answers_ofExcept s.readAll

/-- What mapping a thing into memory gives. -/
def mapped : Location × Node → Except IoFault (List UInt8)
  | (_, .file contents) => if contents.isEmpty then .error .emptyMapping else .ok contents
  | (_, .directory) => .error .notMappable
  | _ => .error .emptyMapping

theorem answers_mapFile (p : Path) : (mapFile p).Answers fun t => t.locate p >>= mapped := by
  intro h
  rw [mapFile]
  dsimp only
  rw [bind_of_ok (files_apply h)]
  rcases h.files.locate p with e | ⟨loc, node⟩
  · rfl
  · rw [bind_of_ok (ofExcept_ok (loc, node) h)]
    cases node with
    | file contents =>
        show (if contents.isEmpty then throw .emptyMapping else pure contents : Job IoFault _) h
          = ofExcept (if contents.isEmpty then .error .emptyMapping else .ok contents) h
        rw [ite_run]
        split <;> rfl
    | _ => rfl

/-! ## Looking and reporting -/

/-- The job looks at the files and reports, and no more: its answer is `r` of the tree, and
    no file is another afterwards. -/
def Observes (job : Job ε α) (r : FileTree → Except ε α) : Prop :=
  ∀ h : Host, ∃ events, job h = ofExcept (r h.files) { h with events }

theorem observes_pure (a : α) : (pure a : Job ε α).Observes fun _ => .ok a :=
  fun h => ⟨h.events, rfl⟩

/-- Of things that are looked at one after the other, those that give something are kept. -/
theorem observes_filterMapM {f : α → Job ε (Option β)} {g : FileTree → α → Option β}
    (hf : ∀ a, (f a).Observes fun t => .ok (g t a)) (l : List α) :
    (l.filterMapM f).Observes fun t => .ok (l.filterMap (g t)) := by
  -- the host differs from step to step in its events only, so each look is at the same tree
  induction l with
  | nil => exact observes_pure []
  | cons a rest ih =>
      intro h
      obtain ⟨events, hh⟩ := hf a h
      obtain ⟨events', hrest⟩ := ih { h with events }
      refine ⟨events', ?_⟩
      dsimp only at hh hrest ⊢
      cases hg : g h.files a with
      | none =>
          rw [hg, ofExcept_ok] at hh
          rw [List.filterMap_cons_none hg, List.filterMapM_cons, bind_of_ok hh]
          exact hrest
      | some b =>
          rw [hg, ofExcept_ok] at hh
          rw [List.filterMap_cons_some hg, List.filterMapM_cons, bind_of_ok hh]
          exact bind_of_ok hrest

/-! ## Writing -/

/-- Opens a path for writing and writes an emission to it. -/
def sendTo (p : Path) (ofIo : IoFault → ε) (em : Emission ε) : Job ε Unit := do
  (← wrap ofIo (create p)).send ofIo em

/-- The tree with a file emptied that is opened for writing. -/
def Target.emptied (target : Target) (t : FileTree) : FileTree :=
  match target with
  | .file loc => t.put loc (.file [])
  | .nullDevice | .fullDevice => t

/-- What a path opens for writing is emptied. -/
theorem create_of_targetAt? {p : Path} {target : Target}
    (htarget : h.files.targetAt? p = some target) :
    create p h = .ok target { h with files := target.emptied h.files } := by
  unfold FileTree.targetAt? at htarget
  unfold create
  rw [bind_of_ok (files_apply h)]
  cases hrun : Walk.run .file h.files p with
  | error e =>
      rw [hrun] at htarget
      exact nomatch htarget
  | ok place =>
      rw [hrun] at htarget
      rw [bind_of_ok (ofExcept_ok place h)]
      cases place with
      | absent dir name =>
          cases htarget
          rfl
      | found l node =>
          cases node with
          | file _ | nullDevice | fullDevice =>
              cases htarget
              rfl
          | directory | link _ => exact nomatch htarget

/-- Where nothing can be opened for writing, nothing changes. -/
theorem create_of_no_target {p : Path} (htarget : h.files.targetAt? p = none) :
    ∃ fault, create p h = .error fault h := by
  unfold FileTree.targetAt? at htarget
  unfold create
  rw [bind_of_ok (files_apply h)]
  cases hrun : Walk.run .file h.files p with
  | error e => exact ⟨e, bind_of_error (ofExcept_error e h)⟩
  | ok place =>
      rw [hrun] at htarget
      rw [bind_of_ok (ofExcept_ok place h)]
      cases place with
      | absent dir name => exact nomatch htarget
      | found l node =>
          cases node with
          | file _ | nullDevice | fullDevice => exact nomatch htarget
          | directory | link _ => exact ⟨.isDirectory, rfl⟩

/-- The file that a path leads to is emptied, or made empty. -/
theorem create_of_fileAt? {p : Path} {loc : Location} (hloc : h.files.fileAt? p = some loc) :
    create p h = .ok (.file loc) { h with files := h.files.put loc (.file []) } :=
  create_of_targetAt? (FileTree.targetAt?_eq_file_iff.2 hloc)

/-- Where a path leads to no file, only a device can be opened for writing, and
    nothing changes. -/
theorem create_of_no_file {p : Path} (hloc : h.files.fileAt? p = none) :
    ∃ r, create p h = ofExcept r h ∧ ∀ target, r = .ok target →
      target = .nullDevice ∧ h.files.nodeAt? p = some .nullDevice
        ∨ target = .fullDevice ∧ h.files.nodeAt? p = some .fullDevice := by
  cases htarget : h.files.targetAt? p with
  | none =>
      obtain ⟨fault, hcreate⟩ := create_of_no_target htarget
      exact ⟨.error fault, hcreate, fun _ hr => nomatch hr⟩
  | some opened =>
      refine ⟨.ok opened, ?_, ?_⟩
      · rw [create_of_targetAt? htarget]
        cases opened with
        | file loc => exact nomatch hloc.symm.trans (FileTree.targetAt?_eq_file_iff.1 htarget)
        | nullDevice | fullDevice => rfl
      · rintro _ ⟨⟩
        exact FileTree.targetAt?_of_no_file hloc htarget

/-- Writing to the file that a path leads to leaves what was written there, also when
    it ends in a fault. -/
theorem sendTo_of_fileAt? {p : Path} {loc : Location} {ofIo : IoFault → ε} {em : Emission ε}
    (hloc : h.files.fileAt? p = some loc) :
    sendTo p ofIo em h
      = ofExcept em.outcome { h with files := h.files.put loc (.file em.bytes) } := by
  have hroom := FileTree.hasRoom_of_fileAt? hloc
  have hopen : wrap ofIo (create p) h
      = .ok (.file loc) { h with files := h.files.put loc (.file []) } :=
    wrap_eq_ok_iff.2 (create_of_fileAt? hloc)
  have hwrite : overwrite loc 0 em.bytes (h.files.put loc (.file []))
      = h.files.put loc (.file em.bytes) := by
    rw [overwrite, FileTree.find?_put hroom.ne_root, if_pos rfl]
    simp [overwritten]
  rw [sendTo, bind_of_ok hopen]
  show (Target.send (.file loc) ofIo em) _ = _
  rw [Target.send, ← hwrite]
  rfl

/-- Where a path leads to no file, writing changes nothing, and succeeds only if a
    device took all the bytes. -/
theorem sendTo_of_no_file {p : Path} {ofIo : IoFault → ε} {em : Emission ε}
    (hloc : h.files.fileAt? p = none) :
    ∃ r, sendTo p ofIo em h = ofExcept r h ∧ (r = .ok () → em.outcome = .ok () ∧
      (h.files.nodeAt? p = some .nullDevice
        ∨ h.files.nodeAt? p = some .fullDevice ∧ em.bytes = [])) := by
  obtain ⟨opened, hopen, htarget⟩ := create_of_no_file hloc
  have hwrap : wrap ofIo (create p) h = ofExcept (opened.mapError ofIo) h := by
    rw [wrap, EStateM.adaptExcept, hopen]
    cases opened <;> rfl
  cases opened with
  | error e => exact ⟨.error (ofIo e), bind_of_error hwrap, fun hr => nomatch hr⟩
  | ok target =>
      rcases htarget target rfl with ⟨rfl, hnode⟩ | ⟨rfl, hnode⟩
      · exact ⟨em.outcome, bind_of_ok hwrap, fun hr => ⟨hr, Or.inl hnode⟩⟩
      · have hsend : sendTo p ofIo em h = Target.send .fullDevice ofIo em h := bind_of_ok hwrap
        by_cases hfull : Target.refuses .fullDevice em.fault.isNone em.bytes = true
        · refine ⟨.error (ofIo .deviceFull), ?_, fun hr => nomatch hr⟩
          rw [hsend, Target.send, if_pos hfull]
          rfl
        · refine ⟨em.outcome, ?_, fun hr => ⟨hr, Or.inr ⟨hnode, ?_⟩⟩⟩
          · rw [hsend, Target.send, if_neg hfull]
            rfl
          · -- all was written, so the device was closed with nothing to write
            cases hfault : em.fault with
            | some e => rw [Emission.outcome, hfault] at hr; exact nomatch hr
            | none => rw [hfault] at hfull; simpa [Target.refuses] using hfull

/-- What is sent without a fault was emitted to the end. -/
theorem outcome_of_sendTo_ok {p : Path} {ofIo : IoFault → ε} {em : Emission ε}
    (hsend : sendTo p ofIo em h = .ok () h') : em.outcome = .ok () := by
  cases hloc : h.files.fileAt? p with
  | some loc =>
      -- a file takes everything, so what fails is the emission itself
      rw [sendTo_of_fileAt? hloc] at hsend
      cases hout : em.outcome with
      | ok _ => rfl
      | error fault =>
          rw [hout] at hsend
          exact nomatch hsend
  | none =>
      obtain ⟨r, hr, hok⟩ : ∃ r, sendTo p ofIo em h = ofExcept r h ∧ (r = .ok () → _ ∧ _) :=
        sendTo_of_no_file hloc
      rw [hr] at hsend
      cases r with
      | ok _ => exact (hok rfl).1
      | error fault => exact nomatch hsend

/-- What writing fails with is the fault of the emission, or one of the file system. -/
theorem fault_of_sendTo {p : Path} {ofIo : IoFault → ε} {em : Emission ε} {e : ε}
    (hsend : sendTo p ofIo em h = .error e h') : em.fault = some e ∨ ∃ fault, e = ofIo fault := by
  rcases bind_eq_error_iff.1 hsend with hopen | ⟨target, h₁, -, hwrite⟩
  · obtain ⟨fault, -, rfl⟩ := wrap_eq_error_iff.1 hopen
    exact Or.inr ⟨fault, rfl⟩
  · rcases bind_eq_error_iff.1 hwrite with hbytes | ⟨_, h₂, -, hend⟩
    · -- the bytes themselves are always handed on
      cases target <;> exact nomatch hbytes
    · split at hend
      · cases hend
        exact Or.inr ⟨.deviceFull, rfl⟩
      · cases hfault : em.fault with
        | none =>
            rw [Emission.outcome, hfault] at hend
            exact nomatch hend
        | some e' =>
            rw [Emission.outcome, hfault] at hend
            cases hend
            exact Or.inl rfl

/-- The tree with bytes written through a path: to the file that it leads to, if any. -/
def sent (p : Path) (bytes : List UInt8) (t : FileTree) : FileTree :=
  match t.fileAt? p with
  | some loc => t.put loc (.file bytes)
  | none => t

/-- Whatever comes of it, writing leaves the tree with what was written. -/
theorem sendTo_eq (p : Path) (ofIo : IoFault → ε) (em : Emission ε) (h : Host) :
    ∃ r, sendTo p ofIo em h = ofExcept r { h with files := sent p em.bytes h.files } := by
  rw [sent]
  cases hloc : h.files.fileAt? p with
  | some loc => exact ⟨em.outcome, sendTo_of_fileAt? hloc⟩
  | none =>
      obtain ⟨r, hr, -⟩ : ∃ r, sendTo p ofIo em h = ofExcept r h ∧ _ := sendTo_of_no_file hloc
      exact ⟨r, hr⟩

/-- Where sending fails, the bytes in front of the fault have been sent. -/
theorem files_of_sendTo_error {p : Path} {ofIo : IoFault → ε} {em : Emission ε} {e : ε}
    (hsend : sendTo p ofIo em h = .error e h') : h'.files = sent p em.bytes h.files := by
  obtain ⟨r, hr⟩ := sendTo_eq p ofIo em h
  rw [hr] at hsend
  cases r with
  | ok u => cases hsend
  | error fault =>
      cases hsend
      rfl

/-- Writing to another file leaves a file as it is, and every path leads where it led. -/
theorem sent_other {t : FileTree} {p q : Path} {loc : Location} {contents bytes : List UInt8}
    (hloc : t.fileAt? p = some loc) (hfile : t.find? loc = some (.file contents))
    (hother : t.fileAt? q ≠ t.fileAt? p) :
    (sent q bytes t).fileAt? p = some loc
      ∧ (sent q bytes t).find? loc = some (.file contents) := by
  rw [sent]
  cases hq : t.fileAt? q with
  | none => exact ⟨hloc, hfile⟩
  | some loc' =>
      have hroom := FileTree.hasRoom_of_fileAt? hq
      have hne : loc' ≠ loc := fun heq => hother (by rw [hq, hloc, heq])
      refine ⟨((hroom.agreeBut_put bytes).fileAt?_eq p).trans hloc, ?_⟩
      rw [FileTree.find?_put hroom.ne_root, if_neg hne, hfile]

end Job

end ExecTruth
