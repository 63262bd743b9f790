import ExecTruth.Files.Walk

/-! # Walks to files — a path keeps leading to the file that is written through it

    Writing through a path changes what stands at one location, where nothing but a
    file may stand.  A walk goes on through directories and links only, so it does
    not notice such a change on its way: every path leads to the same file, there or
    yet to be made, as before (`AgreeBut.fileAt?_eq`).  A file that stands where a path
    leads is also what the path finds (`locate_of_fileAt?`).

    `Leads` says which walks arrive, and where, one case for each kind of step. -/

namespace ExecTruth

namespace Walk

/-- The walk along the steps arrives at the place. -/
inductive Leads (aim : Aim) (t : FileTree) :
    Nat → Location → Node → List Path.Step → Place → Prop
  | stop {links : Nat} {loc : Location} {node : Node} :
      Leads aim t links loc node [] (.found loc node)
  | stay {links : Nat} {loc : Location} {step : Path.Step} {rest : List Path.Step}
      {place : Place} (hstep : step = .here ∨ step = .trailing)
      (hrest : Leads aim t links loc .directory rest place) :
      Leads aim t links loc .directory (step :: rest) place
  | up {links : Nat} {loc : Location} {rest : List Path.Step} {place : Place}
      (hrest : Leads aim t links loc.dropLast .directory rest place) :
      Leads aim t links loc .directory (.up :: rest) place
  | absent {links : Nat} {loc : Location} {n : List UInt8} (hlen : n.length ≤ maxName)
      (hfind : t.find? (loc ++ [n]) = none) :
      Leads aim t links loc .directory [.name n] (.absent loc n)
  | entry {links : Nat} {loc : Location} {n : List UInt8} {target : Path}
      (haim : aim = .entry) (hlen : n.length ≤ maxName)
      (hfind : t.find? (loc ++ [n]) = some (.link target)) :
      Leads aim t links loc .directory [.name n] (.found (loc ++ [n]) (.link target))
  | follow {links : Nat} {loc : Location} {n : List UInt8} {target : Path}
      {rest : List Path.Step} {place : Place}
      (hslash : ¬(aim = .file ∧ rest = [.trailing])) (hlen : n.length ≤ maxName)
      (hfind : t.find? (loc ++ [n]) = some (.link target))
      (hstop : ¬(rest = [] ∧ aim = .entry))
      (hrest : Leads aim t links (if target.isAbsolute then [] else loc) .directory
        (target.steps ++ rest) place) :
      Leads aim t (links + 1) loc .directory (.name n :: rest) place
  | enter {links : Nat} {loc : Location} {n : List UInt8} {inner : Node}
      {rest : List Path.Step} {place : Place}
      (hslash : ¬(aim = .file ∧ rest = [.trailing])) (hlen : n.length ≤ maxName)
      (hfind : t.find? (loc ++ [n]) = some inner) (hlink : ∀ target, inner ≠ .link target)
      (hrest : Leads aim t links (loc ++ [n]) inner rest place) :
      Leads aim t links loc .directory (.name n :: rest) place

variable {aim : Aim} {t : FileTree} {links : Nat} {loc : Location} {node : Node}
  {steps : List Path.Step} {place : Place}

/-- What the walk of the program ends at is where the steps lead. -/
theorem leads_of_go (h : go aim t links loc node steps = .ok place) :
    Leads aim t links loc node steps place := by
  -- one case for each way that a step can go; those that fail do not arrive
  fun_induction go aim t links loc node steps with
  | case1 => cases h; exact .stop
  | case3 _ _ _ _ hdir ih =>
      rw [Decidable.of_not_not hdir]
      exact .stay (Or.inl rfl) (Decidable.of_not_not hdir ▸ ih h)
  | case4 _ _ _ _ hdir ih =>
      rw [Decidable.of_not_not hdir]
      exact .stay (Or.inr rfl) (Decidable.of_not_not hdir ▸ ih h)
  | case5 _ _ _ _ hdir ih =>
      rw [Decidable.of_not_not hdir]
      exact .up (ih h)
  | case8 _ _ _ hdir _ hlen hfind _ =>
      rw [Decidable.of_not_not hdir]
      cases h
      exact .absent (Nat.not_lt.1 hlen) hfind
  | case10 _ _ _ _ hdir _ _ hlen _ hfind hentry =>
      rw [Decidable.of_not_not hdir, hentry.1]
      cases h
      exact .entry hentry.2 (Nat.not_lt.1 hlen) hfind
  | case12 _ _ _ hdir _ hslash hlen _ hfind hstop _ _ ih =>
      rw [Decidable.of_not_not hdir]
      exact .follow hslash (Nat.not_lt.1 hlen) hfind hstop (ih h)
  | case13 _ _ _ _ hdir _ hslash hlen inner hlink hfind ih =>
      rw [Decidable.of_not_not hdir]
      exact .enter hslash (Nat.not_lt.1 hlen) hfind (fun target e => hlink target e) (ih h)
  | case2 | case6 | case7 | case9 | case11 => exact nomatch h

/-- Where steps lead is where the walk of the program ends. -/
theorem go_of_leads (h : Leads aim t links loc node steps place) :
    go aim t links loc node steps = .ok place := by
  -- one case for each step of the walk; the tests of the program are those of the step
  induction h with
  | stop => rw [go]
  | stay hstep _ ih =>
      rcases hstep with rfl | rfl
      · rw [go, if_neg (by decide)]; exact ih
      · rw [go, if_neg (by decide)]; exact ih
  | up _ ih => rw [go, if_neg (by decide)]; exact ih
  | absent hlen hfind => simp [go, hlen, hfind]
  | entry haim hlen hfind => simp [go, haim, hlen, hfind]
  | follow hslash hlen hfind hstop _ ih =>
      rw [go, if_neg (by decide), if_neg hslash, if_neg (Nat.not_lt.2 hlen), hfind]
      exact (if_neg hstop).trans ih
  | @enter links loc n inner rest place hslash hlen hfind hlink _ ih =>
      rw [go, if_neg (by decide), if_neg hslash, if_neg (Nat.not_lt.2 hlen), hfind]
      cases inner with
      | link target => exact absurd rfl (hlink target)
      | _ => exact ih

/-- `Leads` is arriving. -/
theorem go_ok_iff :
    go aim t links loc node steps = .ok place ↔ Leads aim t links loc node steps place :=
  ⟨leads_of_go, go_of_leads⟩

/-! ## What stands where a walk ends -/

/-- What a walk finds stands where it ends, unless the walk begins elsewhere than the
    tree says. -/
theorem Leads.find?_of_found (h : Leads aim t links loc node steps place)
    (hstart : node = .directory ∨ t.find? loc = some node) {l : Location} {n : Node}
    (hplace : place = .found l n) : n = .directory ∨ t.find? l = some n := by
  induction h with
  | stop => cases hplace; exact hstart
  | stay _ _ ih => exact ih (Or.inl rfl) hplace
  | up _ ih => exact ih (Or.inl rfl) hplace
  | absent => exact nomatch hplace
  | entry _ _ hfind => cases hplace; exact Or.inr hfind
  | follow _ _ _ _ _ ih => exact ih (Or.inl rfl) hplace
  | enter _ _ hfind _ _ ih => exact ih (Or.inr hfind) hplace

/-- Nothing stands where a walk finds nothing. -/
theorem Leads.find?_of_absent (h : Leads aim t links loc node steps place) {dir : Location}
    {name : List UInt8} (hplace : place = .absent dir name) : t.find? (dir ++ [name]) = none := by
  induction h with
  | stop | entry => exact nomatch hplace
  | absent _ hfind => cases hplace; exact hfind
  | stay _ _ ih | up _ ih | follow _ _ _ _ _ ih | enter _ _ _ _ _ ih => exact ih hplace

/-- A walk to a file that may be made is also a walk to what is there. -/
theorem Leads.thing_of_file (h : Leads .file t links loc node steps place) :
    Leads .thing t links loc node steps place := by
  induction h with
  | stop => exact .stop
  | stay hstep _ ih => exact .stay hstep ih
  | up _ ih => exact .up ih
  | absent hlen hfind => exact .absent hlen hfind
  | entry haim => exact nomatch haim
  | follow _ hlen hfind _ _ ih =>
      exact .follow (fun h => nomatch h.1) hlen hfind (fun h => nomatch h.2) ih
  | enter _ hlen hfind hlink _ ih => exact .enter (fun h => nomatch h.1) hlen hfind hlink ih

end Walk

/-! ## Where writing goes -/

/-- The location of the file that a place is, or is to become. -/
def Place.file? : Place → Option Location
  | .absent dir name => some (dir ++ [name])
  | .found loc (.file _) => some loc
  | .found _ _ => none

namespace FileTree

/-- The location of the file that writing to a path fills, there or yet to be made. -/
def fileAt? (t : FileTree) (p : Path) : Option Location :=
  match Walk.run .file t p with
  | .ok place => place.file?
  | .error _ => none

/-- What a path leads to, with symbolic links followed. -/
def nodeAt? (t : FileTree) (p : Path) : Option Node :=
  match t.locate p with
  | .ok (_, node) => some node
  | .error _ => none

/-- Only a file may stand at a location: there is one, or there is nothing. -/
def HasRoom (t : FileTree) (loc : Location) : Prop :=
  t.find? loc = none ∨ ∃ contents, t.find? loc = some (.file contents)

/-- The trees differ at most in what file there is at a location. -/
structure AgreeBut (loc : Location) (t t' : FileTree) : Prop where
  workDir : t'.workDir = t.workDir
  elsewhere : ∀ loc' ≠ loc, t'.find? loc' = t.find? loc'
  room : t.HasRoom loc
  room' : t'.HasRoom loc

variable {t t' : FileTree} {loc : Location} {p : Path}

theorem AgreeBut.symm (h : AgreeBut loc t t') : AgreeBut loc t' t :=
  ⟨h.workDir.symm, fun loc' hne => (h.elsewhere loc' hne).symm, h.room', h.room⟩

theorem HasRoom.ne_root (h : t.HasRoom loc) : loc ≠ [] := by
  rintro rfl
  rcases h with h | ⟨contents, h⟩ <;> exact nomatch h

/-- Putting a file where there is room for it changes no more than that. -/
theorem HasRoom.agreeBut_put (h : t.HasRoom loc) (contents : List UInt8) :
    AgreeBut loc t (t.put loc (.file contents)) where
  workDir := rfl
  elsewhere loc' hne := by rw [find?_put h.ne_root, if_neg (Ne.symm hne)]
  room := h
  room' := Or.inr ⟨contents, by rw [find?_put h.ne_root, if_pos rfl]⟩

/-- The trees have the same walks, for all that a `view` of a place shows that does not tell
    whether a file is there or yet to be made: where the trees differ, no walk goes on. -/
theorem AgreeBut.leads {α : Type} (view : Place → α)
    (hview : ∀ dir n contents, view (.found (dir ++ [n]) (.file contents)) = view (.absent dir n))
    (h : AgreeBut loc t t') {links : Nat} {start : Location} {node : Node}
    {steps : List Path.Step} {place : Place}
    (hwalk : Walk.Leads .file t links start node steps place) :
    ∃ place', Walk.Leads .file t' links start node steps place' ∧ view place' = view place := by
  induction hwalk with
  | stop => exact ⟨_, .stop, rfl⟩
  | stay hstep _ ih =>
      obtain ⟨place', hplace', hl⟩ := ih
      exact ⟨place', .stay hstep hplace', hl⟩
  | up _ ih =>
      obtain ⟨place', hplace', hl⟩ := ih
      exact ⟨place', .up hplace', hl⟩
  | @absent links start n hlen hfind =>
      by_cases hloc : start ++ [n] = loc
      · rcases h.room' with hnone | ⟨contents, hfile⟩
        · exact ⟨_, .absent hlen (hloc ▸ hnone), rfl⟩
        · exact ⟨.found (start ++ [n]) (.file contents),
            .enter (by simp) hlen (hloc ▸ hfile) (by simp) .stop, hview start n contents⟩
      · exact ⟨_, .absent hlen ((h.elsewhere _ hloc).trans hfind), rfl⟩
  | entry haim => exact nomatch haim
  | @follow links start n target rest place hslash hlen hfind hstop _ ih =>
      have hloc : start ++ [n] ≠ loc := by
        rintro rfl
        rcases h.room with hnone | ⟨contents, hfile⟩
        · exact nomatch hnone.symm.trans hfind
        · exact nomatch hfile.symm.trans hfind
      obtain ⟨place', hplace', hl⟩ := ih
      exact ⟨place', .follow hslash hlen ((h.elsewhere _ hloc).trans hfind) hstop hplace', hl⟩
  | @enter links start n inner rest place hslash hlen hfind hlink hrest ih =>
      by_cases hloc : start ++ [n] = loc
      · -- a file stands here, so the walk ends here
        obtain ⟨old, rfl⟩ : ∃ old, inner = .file old := by
          rcases h.room with hnone | ⟨old, hfile⟩
          · exact nomatch (hloc ▸ hnone).symm.trans hfind
          · exact ⟨old, Option.some.inj (hfind.symm.trans (hloc ▸ hfile))⟩
        cases hrest
        rcases h.room' with hnone | ⟨contents, hfile⟩
        · exact ⟨_, .absent hlen (hloc ▸ hnone), (hview start n old).symm⟩
        · exact ⟨.found (start ++ [n]) (.file contents),
            .enter hslash hlen (hloc ▸ hfile) (by simp) .stop,
            (hview start n contents).trans (hview start n old).symm⟩
      · obtain ⟨place', hplace', hl⟩ := ih
        exact ⟨place', .enter hslash hlen ((h.elsewhere _ hloc).trans hfind) hlink hplace', hl⟩

/-- A path leads to a file if it spells a walk that ends there. -/
theorem fileAt?_eq_some_iff :
    t.fileAt? p = some loc ↔ p.fault? = none ∧ ∃ place,
      Walk.Leads .file t Walk.maxLinks (Walk.startOf t p) .directory p.steps place
        ∧ place.file? = some loc := by
  have hsteps : Walk.stepsOf .file p = p.steps := rfl
  rw [fileAt?, Walk.run, hsteps]
  cases p.fault? with
  | some fault => simp
  | none =>
      dsimp only
      simp only [true_and, ← Walk.go_ok_iff]
      cases Walk.go .file t Walk.maxLinks (Walk.startOf t p) .directory p.steps <;> simp

/-- A plain name leads to the file of that name in the working directory. -/
theorem fileAt?_name {n : List UInt8} (hfault : Path.fault? ⟨n⟩ = none)
    (hrelative : Path.isAbsolute ⟨n⟩ = false) (hsteps : Path.steps ⟨n⟩ = [.name n])
    (hlen : n.length ≤ Walk.maxName) (hroom : t.HasRoom (t.workDir ++ [n])) :
    t.fileAt? ⟨n⟩ = some (t.workDir ++ [n]) := by
  have hstart : Walk.startOf t ⟨n⟩ = t.workDir := by simp [Walk.startOf, hrelative]
  refine fileAt?_eq_some_iff.2 ⟨hfault, ?_⟩
  rw [hstart, hsteps]
  rcases hroom with hnone | ⟨contents, hfile⟩
  · exact ⟨_, .absent hlen hnone, rfl⟩
  · exact ⟨.found _ (.file contents), .enter (by simp) hlen hfile nofun .stop, rfl⟩

/-- There is room for a file where a path leads to one. -/
theorem hasRoom_of_fileAt? (h : t.fileAt? p = some loc) : t.HasRoom loc := by
  obtain ⟨-, place, hwalk, hplace⟩ := fileAt?_eq_some_iff.1 h
  cases place with
  | absent dir name =>
      cases hplace
      exact Or.inl (hwalk.find?_of_absent rfl)
  | found l node =>
      cases node with
      | file contents =>
          cases hplace
          exact Or.inr ⟨contents, (hwalk.find?_of_found (Or.inl rfl) rfl).resolve_left (by simp)⟩
      | _ => exact nomatch hplace

/-- Walking along a path shows the same in both trees. -/
theorem AgreeBut.run_eq {α : Type} (view : Place → α)
    (hview : ∀ dir n contents, view (.found (dir ++ [n]) (.file contents)) = view (.absent dir n))
    (h : AgreeBut loc t t') (p : Path) :
    (Walk.run .file t' p).toOption.map view = (Walk.run .file t p).toOption.map view := by
  have hstart : Walk.startOf t' p = Walk.startOf t p := by
    rw [Walk.startOf, Walk.startOf, h.workDir]
  rw [Walk.run, Walk.run, hstart]
  cases p.fault? with
  | some fault => rfl
  | none =>
      dsimp only
      cases hgo : Walk.go .file t Walk.maxLinks (Walk.startOf t p) .directory
        (Walk.stepsOf .file p) with
      | ok place =>
          obtain ⟨place', hwalk, hsame⟩ := h.leads view hview (Walk.leads_of_go hgo)
          rw [Walk.go_of_leads hwalk]
          exact congrArg some hsame
      | error e =>
          -- a walk that fails in the one tree cannot end in the other, as agreeing goes both ways
          cases hgo' : Walk.go .file t' Walk.maxLinks (Walk.startOf t p) .directory
            (Walk.stepsOf .file p) with
          | error e' => rfl
          | ok place =>
              obtain ⟨place', hwalk, -⟩ := h.symm.leads view hview (Walk.leads_of_go hgo')
              exact nomatch (Walk.go_of_leads hwalk).symm.trans hgo

/-- The file of a path is that of the place where its walk ends. -/
theorem fileAt?_eq_bind (t : FileTree) (p : Path) :
    t.fileAt? p = ((Walk.run .file t p).toOption.map Place.file?).join := by
  rw [fileAt?]
  cases Walk.run .file t p <;> rfl

/-- Every path leads to the same file in both trees. -/
theorem AgreeBut.fileAt?_eq (h : AgreeBut loc t t') (p : Path) : t'.fileAt? p = t.fileAt? p := by
  rw [fileAt?_eq_bind, fileAt?_eq_bind, h.run_eq Place.file? fun _ _ _ => rfl]

/-- What a walk to a file finds is what the path leads to. -/
theorem nodeAt?_of_run {node : Node} (hrun : Walk.run .file t p = .ok (.found loc node)) :
    t.nodeAt? p = some node := by
  rw [Walk.run] at hrun
  cases hfault : p.fault? with
  | some fault => rw [hfault] at hrun; exact nomatch hrun
  | none =>
      rw [hfault] at hrun
      have hthing : Walk.run .thing t p = .ok (.found loc node) := by
        rw [Walk.run, hfault]
        exact Walk.go_of_leads (Walk.leads_of_go hrun).thing_of_file
      rw [nodeAt?, locate, hthing]

/-- A path that leads to a file finds it when it is there. -/
theorem locate_of_fileAt? {contents : List UInt8} (h : t.fileAt? p = some loc)
    (hfile : t.find? loc = some (.file contents)) : t.locate p = .ok (loc, .file contents) := by
  obtain ⟨hfault, place, hwalk, hplace⟩ := fileAt?_eq_some_iff.1 h
  have hfound : place = .found loc (.file contents) := by
    -- a walk that ends with nothing, or with another thing than a file, is excluded by `hfile`
    cases place with
    | absent dir name =>
        cases hplace
        exact nomatch (hwalk.find?_of_absent rfl).symm.trans hfile
    | found l node =>
        cases node with
        | file old =>
            cases hplace
            have hold := (hwalk.find?_of_found (Or.inl rfl) rfl).resolve_left (by simp)
            rw [← Option.some.inj (hold.symm.trans hfile)]
        | _ => exact nomatch hplace
  have hrun : Walk.run .thing t p = .ok (.found loc (.file contents)) := by
    rw [Walk.run, hfault]
    exact Walk.go_of_leads (hfound ▸ hwalk.thing_of_file)
  rw [locate, hrun]

/-- A path that leads to a file yet to be made finds nothing. -/
theorem locate_of_absent (h : t.fileAt? p = some loc) (hnone : t.find? loc = none) :
    t.locate p = .error .missing := by
  obtain ⟨hfault, place, hwalk, hplace⟩ := fileAt?_eq_some_iff.1 h
  obtain ⟨dir, name, rfl⟩ : ∃ dir name, place = .absent dir name := by
    cases place with
    | absent dir name => exact ⟨dir, name, rfl⟩
    | found l node =>
        cases node with
        | file old =>
            cases hplace
            have hold := (hwalk.find?_of_found (Or.inl rfl) rfl).resolve_left (by simp)
            exact nomatch hnone.symm.trans hold
        | _ => exact nomatch hplace
  have hrun : Walk.run .thing t p = .ok (.absent dir name) := by
    rw [Walk.run, hfault]
    exact Walk.go_of_leads hwalk.thing_of_file
  rw [locate, hrun]

/-- Two trees in which a path leads to the same thing find it there. -/
theorem locate_congr {t' : FileTree} {node : Node} (same : t'.nodeAt? p = t.nodeAt? p)
    (h : t.locate p = .ok (loc, node)) : ∃ loc', t'.locate p = .ok (loc', node) := by
  rw [nodeAt?, nodeAt?, h] at same
  split at same
  · next loc' node' hlocate =>
      cases same
      exact ⟨loc', hlocate⟩
  · exact nomatch same

/-- A path that leads to the place of a file leads to what is in it. -/
theorem nodeAt?_of_fileAt? {contents : List UInt8} (h : t.fileAt? p = some loc)
    (hfile : t.find? loc = some (.file contents)) : t.nodeAt? p = some (.file contents) := by
  rw [nodeAt?, locate_of_fileAt? h hfile]

end FileTree

end ExecTruth
