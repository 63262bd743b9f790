import ExecTruth.Proofs.Files.Names
import ExecTruth.Proofs.Files.Openings
import ExecTruth.Proofs.Files.Spellings
import Mathlib.Data.List.Nodup

/-! # Directories — what is in a directory, and where the names in it lead

    A tree that lists every location once has in a directory just what is found behind it
    (`mem_entries_iff`), whatever the order in which it is listed.

    Where all that is in a tree is also in another, paths that find something find it in the
    other (`Within.locate_eq`).  So trees that only differ in the order of their nodes find
    the same (`Rearranged`).  Making directories puts some where nothing was
    (`grown_of_makeDirectories`).

    A name put behind the path of a directory leads to what has that name there
    (`run_join`). -/

namespace ExecTruth

open Job

namespace FileTree

variable {t t' t'' : FileTree} {loc dir : Location} {node node' : Node} {name : List UInt8}
  {p : Path}

/-! ## Entries -/

/-- Every location is listed once. -/
def Distinct (t : FileTree) : Prop := (t.nodes.map (·.1)).Nodup

/-- Where every location is listed once, what is found is what is listed. -/
theorem find?_eq_some_iff (h : t.Distinct) (hne : loc ≠ []) :
    t.find? loc = some node ↔ (loc, node) ∈ t.nodes := by
  rw [find?, if_neg hne, Option.map_eq_some_iff]
  constructor
  · rintro ⟨⟨loc', node'⟩, hfind, rfl⟩
    have hloc : loc' = loc := by simpa using List.find?_some hfind
    exact hloc ▸ List.mem_of_find?_eq_some hfind
  · intro hmem
    obtain ⟨e, he⟩ : ∃ e, t.nodes.find? (·.1 = loc) = some e := by
      rw [← Option.isSome_iff_exists, List.find?_isSome]
      exact ⟨(loc, node), hmem, by simp⟩
    have hloc : e.1 = loc := by simpa using List.find?_some he
    have heq : e = (loc, node) :=
      List.inj_on_of_nodup_map h (List.mem_of_find?_eq_some he) hmem hloc
    exact ⟨e, he, congrArg Prod.snd heq⟩

/-- The entry of a directory that a node is. -/
def entryIn (dir : Location) (e : Location × Node) : Option (List UInt8 × Node) :=
  match e.1.getLast? with
  | some name => if e.1.dropLast = dir then some (name, e.2) else none
  | none => none

/-- The entries of a directory are the nodes one name behind it. -/
theorem entryIn_eq_some_iff :
    entryIn dir (loc, node) = some (name, node') ↔ loc = dir ++ [name] ∧ node = node' := by
  rw [entryIn]
  cases hlast : loc.getLast? with
  | none =>
      rw [List.getLast?_eq_none_iff.1 hlast]
      simp
  | some last =>
      obtain ⟨front, rfl⟩ := List.getLast?_eq_some_iff.1 hlast
      rw [List.dropLast_concat]
      constructor
      · intro h
        dsimp only at h
        split at h
        · next hdir =>
            cases h
            exact ⟨hdir ▸ rfl, rfl⟩
        · cases h
      · rintro ⟨hloc, rfl⟩
        obtain ⟨rfl, hname⟩ := List.append_inj' hloc rfl
        cases hname
        exact if_pos rfl

theorem entries_eq (t : FileTree) (dir : Location) :
    t.entries dir = t.nodes.filterMap (entryIn dir) := rfl

/-- What is in a directory is what is found behind it. -/
theorem mem_entries_iff (h : t.Distinct) :
    (name, node) ∈ t.entries dir ↔ t.find? (dir ++ [name]) = some node := by
  rw [find?_eq_some_iff h (by simp), entries_eq, List.mem_filterMap]
  constructor
  · rintro ⟨⟨loc, node'⟩, hmem, heq⟩
    obtain ⟨rfl, rfl⟩ := entryIn_eq_some_iff.1 heq
    exact hmem
  · intro hmem
    exact ⟨_, hmem, entryIn_eq_some_iff.2 ⟨rfl, rfl⟩⟩

/-- No name stands twice in a directory. -/
theorem nodup_entries (h : t.Distinct) (dir : Location) :
    ((t.entries dir).map (·.1)).Nodup := by
  have hnodes : t.nodes.Pairwise fun a b => a.1 ≠ b.1 := List.pairwise_map.1 h
  refine List.pairwise_map.2 (List.Pairwise.filterMap (entryIn dir) ?_ hnodes)
  rintro ⟨loc, node⟩ ⟨loc', node'⟩ hne ⟨name, _⟩ hb ⟨name', _⟩ hb' rfl
  obtain ⟨rfl, -⟩ := entryIn_eq_some_iff.1 hb
  obtain ⟨rfl, -⟩ := entryIn_eq_some_iff.1 hb'
  exact hne rfl

/-! ## Trees with all that is in another -/

/-- What is in the one tree is in the other at the same place. -/
structure Within (t t' : FileTree) : Prop where
  workDir : t'.workDir = t.workDir
  kept : ∀ loc node, t.find? loc = some node → t'.find? loc = some node

/-- A walk that finds something finds it in the other tree. -/
theorem Within.leads (h : Within t t') {aim : Aim} {links : Nat} {steps : List Path.Step}
    {start : Location} {place : Place}
    (hwalk : Walk.Leads aim t links start node steps place) (hfound : place = .found loc node') :
    Walk.Leads aim t' links start node steps place := by
  induction hwalk with
  | stop => exact .stop
  | stay hstep _ ih => exact .stay hstep (ih hfound)
  | up _ ih => exact .up (ih hfound)
  -- a walk that ends with nothing may end with something in the larger tree
  | absent => exact nomatch hfound
  | entry haim hlen hfind => exact .entry haim hlen (h.kept _ _ hfind)
  | follow hslash hlen hfind hstop _ ih =>
      exact .follow hslash hlen (h.kept _ _ hfind) hstop (ih hfound)
  | enter hslash hlen hfind hlink _ ih =>
      exact .enter hslash hlen (h.kept _ _ hfind) hlink (ih hfound)

/-- A path leads somewhere exactly where a walk of its steps does, from where it starts. -/
theorem locate_eq_ok_iff : t.locate p = .ok (loc, node) ↔ p.fault? = none
    ∧ Walk.Leads .thing t Walk.maxLinks (Walk.startOf t p) .directory p.steps
      (.found loc node) := by
  have hsteps : Walk.stepsOf .thing p = p.steps := rfl
  rw [locate, Walk.run, hsteps, ← Walk.go_ok_iff]
  cases p.fault? with
  | some fault => simp
  | none =>
      dsimp only
      rcases Walk.go .thing t Walk.maxLinks (Walk.startOf t p) .directory p.steps with
        fault | ⟨l, n⟩ | ⟨dir, name⟩ <;> simp

/-- A plain name leads to the directory of that name in the working directory. -/
theorem locate_name {n : List UInt8} (hfault : Path.fault? ⟨n⟩ = none)
    (hrelative : Path.isAbsolute ⟨n⟩ = false) (hsteps : Path.steps ⟨n⟩ = [.name n])
    (hlen : n.length ≤ Walk.maxName) (hfind : t.find? (t.workDir ++ [n]) = some .directory) :
    t.locate ⟨n⟩ = .ok (t.workDir ++ [n], .directory) := by
  have hstart : Walk.startOf t ⟨n⟩ = t.workDir := by simp [Walk.startOf, hrelative]
  refine locate_eq_ok_iff.2 ⟨hfault, ?_⟩
  rw [hstart, hsteps]
  exact .enter (by simp) hlen hfind (by simp) .stop

/-- A path leads to a file if a file is what it leads to. -/
theorem isFile_iff : t.isFile p = true ↔ ∃ contents, t.nodeAt? p = some (.file contents) := by
  rw [isFile, nodeAt?]
  rcases t.locate p with fault | ⟨loc, _ | _ | _ | _ | _⟩ <;> simp

/-- What a path leads to, it leads to in the larger tree. -/
theorem Within.locate_eq (h : Within t t') (hlocate : t.locate p = .ok (loc, node)) :
    t'.locate p = .ok (loc, node) := by
  obtain ⟨hfault, hwalk⟩ := locate_eq_ok_iff.1 hlocate
  have hstart : Walk.startOf t' p = Walk.startOf t p := by
    rw [Walk.startOf, Walk.startOf, h.workDir]
  exact locate_eq_ok_iff.2 ⟨hfault, hstart ▸ h.leads hwalk rfl⟩

/-- It leads to the same node there. -/
theorem Within.nodeAt?_eq (h : Within t t') (hnode : t.nodeAt? p = some node) :
    t'.nodeAt? p = some node := by
  rw [nodeAt?] at hnode
  split at hnode
  · next loc node' hlocate =>
      cases hnode
      rw [nodeAt?, h.locate_eq hlocate]
  · cases hnode

/-- The trees list the same nodes, in any order. -/
structure Rearranged (t t' : FileTree) : Prop where
  workDir : t'.workDir = t.workDir
  nodes : t'.nodes.Perm t.nodes

namespace Rearranged

theorem symm (h : Rearranged t t') : Rearranged t' t := ⟨h.workDir.symm, h.nodes.symm⟩

/-- Whether locations are listed once does not depend on the order. -/
theorem distinct (h : Rearranged t t') (ht : t.Distinct) : t'.Distinct :=
  (h.nodes.map Prod.fst).nodup_iff.2 ht

/-- Nor does what is found at them. -/
theorem within (h : Rearranged t t') (ht : t.Distinct) : Within t t' := by
  refine ⟨h.workDir, fun loc node hfind => ?_⟩
  by_cases hroot : loc = []
  · rw [hroot] at hfind ⊢
    exact hfind
  · exact (find?_eq_some_iff (h.distinct ht) hroot).2
      (h.nodes.mem_iff.2 ((find?_eq_some_iff ht hroot).1 hfind))

/-- A path leads to the same in both. -/
theorem nodeAt?_eq_iff (h : Rearranged t t') (ht : t.Distinct) :
    t'.nodeAt? p = some node ↔ t.nodeAt? p = some node :=
  ⟨(h.symm.within (h.distinct ht)).nodeAt?_eq, (h.within ht).nodeAt?_eq⟩

end Rearranged

/-! ## A name in a directory -/

/-- Where a walk ends whose last step is to a name in a directory. -/
def placeIn (t : FileTree) (dir : Location) (name : List UInt8) : Except IoFault Place :=
  if Walk.maxName < name.length then .error .nameTooLong
  else
    match t.find? (dir ++ [name]) with
    | none => .ok (.absent dir name)
    | some node => .ok (.found (dir ++ [name]) node)

end FileTree

namespace Walk

variable {t : FileTree} {links : Nat} {start dir : Location} {node : Node}
  {steps : List Path.Step} {place : Place} {name : List UInt8}

/-- A walk to a directory does not need the slash at the end. -/
theorem Leads.drop_trailing {steps' : List Path.Step}
    (h : Leads .thing t links start node steps' place) (hplace : place = .found dir .directory)
    (hsteps : steps' = steps ++ [.trailing]) : Leads .thing t links start node steps place := by
  -- only at the last step can the slash be taken away, and there the walk stays
  induction h generalizing steps with
  | stop => exact absurd hsteps (by simp)
  | absent | entry => exact nomatch hplace
  | @stay links loc step rest place hstep hrest ih =>
      cases steps with
      | nil =>
          cases hsteps
          cases hrest
          exact .stop
      | cons first steps =>
          cases hsteps
          exact .stay hstep (ih hplace rfl)
  | up _ ih =>
      cases steps with
      | nil => cases hsteps
      | cons first steps =>
          cases hsteps
          exact .up (ih hplace rfl)
  | follow hslash hlen hfind hstop _ ih =>
      cases steps with
      | nil => cases hsteps
      | cons first steps =>
          cases hsteps
          exact .follow (fun h => nomatch h.1) hlen hfind (fun h => nomatch h.2)
            (ih hplace (List.append_assoc _ _ _).symm)
  | enter hslash hlen hfind hlink _ ih =>
      cases steps with
      | nil => cases hsteps
      | cons first steps =>
          cases hsteps
          exact .enter (fun h => nomatch h.1) hlen hfind hlink (ih hplace rfl)

/-- Behind a walk to a directory, a name leads to what has that name there. -/
theorem Leads.go_name (h : Leads .thing t links start node steps place)
    (hplace : place = .found dir .directory)
    (hlink : ∀ target, t.find? (dir ++ [name]) ≠ some (.link target)) :
    go .file t links start node (steps ++ [.name name]) = t.placeIn dir name := by
  -- what is left to go ends in the name, so it is never the slash alone
  have hslash : ∀ rest, ¬ (Aim.file = .file ∧ rest ++ [.name name] = [Path.Step.trailing]) := by
    rintro rest ⟨-, heq⟩
    have hlast := congrArg List.getLast? heq
    rw [List.getLast?_concat] at hlast
    exact nomatch hlast
  induction h with
  | absent | entry => exact nomatch hplace
  | stop =>
      cases hplace
      rw [List.nil_append, go, if_neg (by simp), if_neg (by simp), FileTree.placeIn]
      split
      · rfl
      · cases hfind : t.find? (dir ++ [name]) with
        | none => rfl
        | some inner =>
            cases inner with
            | link target => exact absurd hfind (hlink target)
            | _ =>
                dsimp only
                rw [go]
  | stay hstep _ ih =>
      rcases hstep with rfl | rfl
      · rw [List.cons_append, go, if_neg (by simp)]
        exact ih hplace
      · rw [List.cons_append, go, if_neg (by simp)]
        exact ih hplace
  | up _ ih =>
      rw [List.cons_append, go, if_neg (by simp)]
      exact ih hplace
  | @follow links loc n target rest place _ hlen hfind hstop _ ih =>
      rw [List.cons_append, go, if_neg (by simp), if_neg (hslash rest),
        if_neg (Nat.not_lt.2 hlen), hfind]
      rw [List.append_assoc] at ih
      exact (if_neg (by simp)).trans (ih hplace)
  | @enter links loc n inner rest place _ hlen hfind hnode _ ih =>
      rw [List.cons_append, go, if_neg (by simp), if_neg (hslash rest),
        if_neg (Nat.not_lt.2 hlen), hfind]
      cases inner with
      | link target => exact absurd rfl (hnode target)
      | _ => exact ih hplace

end Walk

namespace FileTree

variable {t t' t'' : FileTree} {p : Path} {loc dir : Location} {name : List UInt8}

/-- The empty path is refused. -/
theorem bytes_ne_nil (h : p.fault? = none) : p.bytes ≠ [] := by
  intro hnil
  rw [Path.fault?, hnil] at h
  exact nomatch h

/-- Behind the path of a directory, a name leads to what has that name there. -/
theorem run_join (hdir : t.locate p = .ok (dir, .directory)) (hname : Path.IsName name)
    (hlink : ∀ target, t.find? (dir ++ [name]) ≠ some (.link target))
    (hfault : (p.join ⟨name⟩).fault? = none) :
    Walk.run .file t (p.join ⟨name⟩) = t.placeIn dir name := by
  obtain ⟨hp, hwalk⟩ := locate_eq_ok_iff.1 hdir
  have hne := bytes_ne_nil hp
  have hstart : Walk.startOf t (p.join ⟨name⟩) = Walk.startOf t p := by
    rw [Walk.startOf, Walk.startOf, Path.isAbsolute_join hne hname]
  have hsteps : Walk.stepsOf .file (p.join ⟨name⟩)
      = p.parts.filterMap Path.step? ++ [.name name] :=
    Path.steps_join hne hname
  have hnamed : Walk.Leads .thing t Walk.maxLinks (Walk.startOf t p) .directory
      (p.parts.filterMap Path.step?) (.found dir .directory) := by
    rw [Path.steps] at hwalk
    split at hwalk
    · exact hwalk.drop_trailing rfl rfl
    · exact hwalk
  rw [Walk.run, hfault, hstart, hsteps]
  exact hnamed.go_name rfl hlink

/-- What a name behind the path of a directory opens is the file of that name. -/
theorem fileAt?_join_eq_some_iff (hdir : t.locate p = .ok (dir, .directory))
    (hname : Path.IsName name) (hlink : ∀ target, t.find? (dir ++ [name]) ≠ some (.link target)) :
    t.fileAt? (p.join ⟨name⟩) = some loc ↔ (p.join ⟨name⟩).fault? = none
      ∧ name.length ≤ Walk.maxName ∧ t.HasRoom (dir ++ [name]) ∧ loc = dir ++ [name] := by
  cases hfault : (p.join ⟨name⟩).fault? with
  | some fault =>
      rw [fileAt?, Walk.run, hfault]
      simp
  | none =>
      rw [fileAt?, run_join hdir hname hlink hfault, placeIn, HasRoom]
      by_cases hlong : Walk.maxName < name.length
      · rw [if_pos hlong]
        have hlen : ¬ name.length ≤ Walk.maxName := Nat.not_le.2 hlong
        simp [hlen]
      · rw [if_neg hlong]
        have hlen : name.length ≤ Walk.maxName := Nat.not_lt.1 hlong
        rcases t.find? (dir ++ [name]) with _ | _ | _ | _ | _ <;>
          simp [Place.file?, hlen, eq_comm]

/-- What is in a directory is called by names that a directory can hold. -/
def Named (t : FileTree) (dir : Location) : Prop :=
  ∀ name node, t.find? (dir ++ [name]) = some node →
    Path.IsName name ∧ name.length ≤ Walk.maxName

/-- A file in a directory is what its name opens, if the path to it can be spelt. -/
theorem fileAt?_join_of_file {contents : List UInt8} (hdir : t.locate p = .ok (dir, .directory))
    (hnamed : t.Named dir) (hfile : t.find? (dir ++ [name]) = some (.file contents))
    (hfault : (p.join ⟨name⟩).fault? = none) :
    t.fileAt? (p.join ⟨name⟩) = some (dir ++ [name]) := by
  obtain ⟨hname, hlen⟩ := hnamed name _ hfile
  have hlink : ∀ target, t.find? (dir ++ [name]) ≠ some (.link target) := by
    intro target hlink
    cases hfile.symm.trans hlink
  exact (fileAt?_join_eq_some_iff hdir hname hlink).2
    ⟨hfault, hlen, Or.inr ⟨contents, hfile⟩, rfl⟩

/-- A file in a directory is what its name leads to, as long as the changes are elsewhere. -/
theorem nodeAt?_join_of_changedAt {changed : Location → Prop} {contents : List UInt8}
    (hdir : t.locate p = .ok (dir, .directory)) (hnamed : t.Named dir)
    (hfile : t.find? (dir ++ [name]) = some (.file contents)) (hchanged : t.ChangedAt changed t')
    (hsame : ¬ changed (dir ++ [name])) :
    t'.nodeAt? (p.join ⟨name⟩) = t.nodeAt? (p.join ⟨name⟩) := by
  cases hfault : (p.join ⟨name⟩).fault? with
  | some fault =>
      -- the path leads nowhere in any tree
      have hnone : ∀ t : FileTree, t.nodeAt? (p.join ⟨name⟩) = none := by
        intro t
        rw [nodeAt?, locate, Walk.run, hfault]
      rw [hnone, hnone]
  | none =>
      have hopen := fileAt?_join_of_file hdir hnamed hfile hfault
      rw [nodeAt?_of_fileAt? hopen hfile]
      exact hchanged.nodeAt?_eq (targetAt?_eq_file_iff.2 hopen)
        ((hchanged.elsewhere _ hsame).trans hfile)

/-- The name of a file in a directory. -/
def fileName? : List UInt8 × Node → Option (List UInt8)
  | (name, .file _) => some name
  | _ => none

/-- The names of the files in a directory, sorted. -/
def fileNames (t : FileTree) (dir : Location) : List (List UInt8) :=
  ((t.entries dir).filterMap fileName?).mergeSort Path.nameLe

theorem fileName?_eq_some_iff {e : List UInt8 × Node} :
    fileName? e = some name ↔ ∃ contents, e = (name, .file contents) := by
  obtain ⟨name', node⟩ := e
  cases node <;> simp [fileName?]

/-- The names listed are those of the files one name behind the directory. -/
theorem mem_fileNames_iff (h : t.Distinct) :
    name ∈ t.fileNames dir ↔ ∃ contents, t.find? (dir ++ [name]) = some (.file contents) := by
  rw [fileNames, List.mem_mergeSort, List.mem_filterMap]
  constructor
  · rintro ⟨e, hmem, he⟩
    obtain ⟨contents, rfl⟩ := fileName?_eq_some_iff.1 he
    exact ⟨contents, (mem_entries_iff h).1 hmem⟩
  · rintro ⟨contents, hfile⟩
    exact ⟨_, (mem_entries_iff h).2 hfile, rfl⟩

/-- Sorted names of a directory ascend strictly, as no name stands twice in it. -/
theorem ascending_fileNames (h : t.Distinct) (dir : Location) :
    (t.fileNames dir).Pairwise (· < ·) := by
  have hentries : (t.entries dir).Pairwise fun e e' => e.1 ≠ e'.1 :=
    List.pairwise_map.1 (nodup_entries h dir)
  have hnodup : ((t.entries dir).filterMap fileName?).Nodup := by
    refine List.Pairwise.filterMap fileName? ?_ hentries
    intro e e' hne name hname name' hname' heq
    obtain ⟨_, rfl⟩ := fileName?_eq_some_iff.1 hname
    obtain ⟨_, rfl⟩ := fileName?_eq_some_iff.1 hname'
    exact hne heq
  rw [← List.map_id (List.filterMap _ _)] at hnodup
  exact Path.ascending_mergeSort hnodup

/-! ## Making directories -/

/-- Where a walk ends with nothing, nothing is found. -/
theorem find?_of_run_absent {aim : Aim} (hrun : Walk.run aim t p = .ok (.absent dir name)) :
    t.find? (dir ++ [name]) = none := by
  rw [Walk.run] at hrun
  split at hrun
  · cases hrun
  · exact (Walk.leads_of_go hrun).find?_of_absent rfl

/-- Directories were made, where nothing was. -/
structure Grown (t t' : FileTree) : Prop where
  workDir : t'.workDir = t.workDir
  distinct : t.Distinct → t'.Distinct
  kept : ∀ loc, t'.find? loc = t.find? loc
    ∨ t.find? loc = none ∧ t'.find? loc = some .directory

theorem Grown.refl (t : FileTree) : Grown t t := ⟨rfl, id, fun _ => Or.inl rfl⟩

/-- What was made twice was made in steps: a directory made first is kept by the second. -/
theorem Grown.trans (h : Grown t t') (h' : Grown t' t'') : Grown t t'' := by
  refine ⟨h'.workDir.trans h.workDir, fun ht => h'.distinct (h.distinct ht), fun loc => ?_⟩
  rcases h.kept loc with hsame | ⟨hnone, hmade⟩
  · rcases h'.kept loc with hsame' | ⟨hnone', hmade'⟩
    · exact Or.inl (hsame'.trans hsame)
    · exact Or.inr ⟨hsame ▸ hnone', hmade'⟩
  · rcases h'.kept loc with hsame' | ⟨hnone', -⟩
    · exact Or.inr ⟨hnone, hsame'.trans hmade⟩
    · exact nomatch hmade.symm.trans hnone'

/-- A location that is put into a tree is listed once. -/
theorem map_fst_putIn (loc : Location) (node : Node) (l : List (Location × Node)) :
    (putIn loc node l).map (·.1)
      = if loc ∈ l.map (·.1) then l.map (·.1) else l.map (·.1) ++ [loc] := by
  induction l with
  | nil => rfl
  | cons e rest ih =>
      rw [putIn]
      -- an entry of the location is replaced in its place; none puts the new one at the end
      by_cases he : e.1 = loc
      · simp [he]
      · have hmem : loc ∈ (e :: rest).map (·.1) ↔ loc ∈ rest.map (·.1) := by
          simp [Ne.symm he]
        rw [if_neg he, List.map_cons, ih, if_congr hmem rfl rfl]
        split <;> rfl

/-- Putting a node lists no location twice: one that was there is replaced. -/
theorem Distinct.put (h : t.Distinct) (loc : Location) (node : Node) :
    (t.put loc node).Distinct := by
  rw [Distinct, FileTree.put, map_fst_putIn]
  split
  · exact h
  · next hnew => exact List.nodup_append.2 ⟨h, List.nodup_singleton loc, by grind⟩

/-- A directory that is put where nothing was is all that was made. -/
theorem grown_put (hnone : t.find? loc = none) : Grown t (t.put loc .directory) := by
  have hne : loc ≠ [] := by
    rintro rfl
    exact nomatch hnone
  refine ⟨rfl, fun ht => ht.put loc .directory, fun loc' => ?_⟩
  rw [find?_put hne]
  by_cases hloc : loc = loc'
  · exact Or.inr ⟨hloc ▸ hnone, if_pos hloc⟩
  · exact Or.inl (if_neg hloc)

end FileTree

namespace Job

open FileTree

variable {ε : Type} {p : Path} {h h' : Host}

/-- A directory is made where there is none, or nothing is changed. -/
theorem makeDirectory_cases (p : Path) (h : Host) :
    (∃ fault, makeDirectory p h = .error fault h)
    ∨ ∃ files, makeDirectory p h = .ok () { h with files } ∧ Grown h.files files := by
  rw [makeDirectory, bind_of_ok (files_apply h)]
  cases hrun : Walk.run .entry h.files p with
  | error fault => exact Or.inl ⟨fault, bind_of_error (ofExcept_error fault h)⟩
  | ok place =>
      rw [bind_of_ok (ofExcept_ok place h)]
      cases place with
      | found loc node => exact Or.inl ⟨.alreadyThere, rfl⟩
      | absent dir name => exact Or.inr ⟨_, rfl, grown_put (find?_of_run_absent hrun)⟩

/-- An attempt to make a directory makes it or leaves the tree. -/
theorem grown_of_attempt {r : Except IoFault Unit}
    (hrun : (attempt (makeDirectory p) : Job IoFault _) h = .ok r h') :
    Grown h.files h'.files := by
  rcases makeDirectory_cases p h with ⟨fault, hfail⟩ | ⟨files, hok, hgrown⟩
  · rw [attempt_of_error hfail] at hrun
    cases hrun
    exact .refl _
  · rw [attempt_of_ok hok] at hrun
    cases hrun
    exact hgrown

/-- What is left to do when a directory cannot be made: nothing, if there is one. -/
theorem files_of_isDirectory {fault : IoFault}
    (hrun : (do if (← files).isDirectory p then return else throw fault : Job IoFault Unit) h
      = .ok () h') : h' = h := by
  rw [bind_of_ok (files_apply h), ite_run] at hrun
  split at hrun <;> cases hrun
  rfl

/-- Directories that are made are made at once, or behind those above. -/
theorem makeDirectoriesIn_ok {depth : Nat} (hrun : makeDirectoriesIn depth p h = .ok () h') :
    Grown h.files h'.files ∨ ∃ above parent h₁ h₂, depth = above + 1
      ∧ Grown h.files h₁.files ∧ makeDirectoriesIn above parent h₁ = .ok () h₂
      ∧ Grown h₂.files h'.files := by
  unfold makeDirectoriesIn at hrun
  rw [ite_run] at hrun
  split at hrun
  · cases hrun
    exact Or.inl (.refl _)
  · obtain ⟨r, h₁, hfirst, hrest⟩ := bind_eq_ok_iff.1 hrun
    have hgrown := grown_of_attempt hfirst
    split at hrest
    · cases hrest
      exact Or.inl hgrown
    · -- the directory above is missing
      cases depth with
      | zero => exact nomatch hrest
      | succ above =>
          cases hparent : p.parent? with
          | none =>
              rw [hparent] at hrest
              exact nomatch hrest
          | some parent =>
              rw [hparent] at hrest
              obtain ⟨_, h₂, habove, hrest⟩ := bind_eq_ok_iff.1 hrest
              obtain ⟨r, h₃, hagain, hrest⟩ := bind_eq_ok_iff.1 hrest
              refine Or.inr ⟨above, parent, h₁, h₂, rfl, hgrown, habove, ?_⟩
              refine (grown_of_attempt hagain).trans ?_
              split at hrest
              · cases hrest
                exact .refl _
              · exact files_of_isDirectory hrest ▸ .refl _
    · exact Or.inl (files_of_isDirectory hrest ▸ hgrown)

/-- Making a directory with all above it makes directories where nothing was, and does nothing
    else. -/
theorem grown_of_makeDirectoriesIn {depth : Nat}
    (hrun : makeDirectoriesIn depth p h = .ok () h') : Grown h.files h'.files := by
  -- the directories above are one step less deep, and made between two tries
  induction depth generalizing p h h' with
  | zero =>
      rcases makeDirectoriesIn_ok hrun with hgrown | ⟨above, _, _, _, hdepth, -⟩
      · exact hgrown
      · exact nomatch hdepth
  | succ depth ih =>
      rcases makeDirectoriesIn_ok hrun with hgrown | ⟨above, _, _, _, hdepth, hfirst, habove, hlast⟩
      · exact hgrown
      · cases hdepth
        exact hfirst.trans ((ih habove).trans hlast)

/-- Making directories makes nothing else. -/
theorem grown_of_makeDirectories (hrun : makeDirectories p h = .ok () h') :
    Grown h.files h'.files := grown_of_makeDirectoriesIn hrun

/-- A directory of a plain name that is there is not made. -/
theorem makeDirectories_name {n : List UInt8} (hfault : Path.fault? ⟨n⟩ = none)
    (hrelative : Path.isAbsolute ⟨n⟩ = false) (hsteps : Path.steps ⟨n⟩ = [.name n])
    (hlen : n.length ≤ Walk.maxName)
    (hfind : h.files.find? (h.files.workDir ++ [n]) = some .directory) :
    makeDirectories ⟨n⟩ h = .ok () h := by
  have hstart : Walk.startOf h.files ⟨n⟩ = h.files.workDir := by simp [Walk.startOf, hrelative]
  have hentry : Walk.stepsOf .entry ⟨n⟩ = [.name n] := by
    rw [Walk.stepsOf, hsteps]
    rfl
  have hfound : Walk.run .entry h.files ⟨n⟩
      = .ok (.found (h.files.workDir ++ [n]) .directory) := by
    rw [Walk.run, hfault, hstart, hentry]
    exact Walk.go_of_leads (.enter (by simp) hlen hfind (by simp) .stop)
  have hfail : makeDirectory ⟨n⟩ h = .error .alreadyThere h := by
    rw [makeDirectory, bind_of_ok (files_apply h), hfound]
    rfl
  have hthere : h.files.isDirectory ⟨n⟩ = true := by
    rw [FileTree.isDirectory, locate_name hfault hrelative hsteps hlen hfind]
  have hbytes : ¬ (Path.bytes ⟨n⟩).isEmpty = true := by
    rw [List.isEmpty_iff]
    exact bytes_ne_nil hfault
  unfold makeDirectories makeDirectoriesIn
  rw [ite_run, if_neg hbytes, bind_of_ok (attempt_of_error hfail)]
  show (do if (← files).isDirectory ⟨n⟩ then return else throw _ : Job IoFault Unit) h = _
  -- the one that is there already is no failure
  rw [bind_of_ok (files_apply h), ite_run, if_pos hthere]
  rfl

end Job

end ExecTruth
