import ExecTruth.Proofs.Files.Jobs

/-! # Openings — what stays as it is when paths are opened for writing

    Writing to files does not change what paths open.  So the trees before and after any
    number of openings and writings differ in no more than what is in the files
    (`ChangedAt`).  Of files that are put one after the other, each is there in the end if it
    is put once (`find?_putAll`). -/

namespace ExecTruth

open Job

namespace FileTree

variable {t t' t'' : FileTree} {loc : Location} {p : Path} {changed : Location → Prop}

/-- What is in a file does not change what any path opens. -/
theorem AgreeBut.targetAt?_eq (h : AgreeBut loc t t') (p : Path) :
    t'.targetAt? p = t.targetAt? p := by
  rw [targetAt?, targetAt?, h.run_eq Place.target? fun _ _ _ => rfl]

/-- The trees differ in no more than what is in the files at some locations. -/
structure ChangedAt (changed : Location → Prop) (t t' : FileTree) : Prop where
  workDir : t'.workDir = t.workDir
  targets : ∀ p, t'.targetAt? p = t.targetAt? p
  elsewhere : ∀ loc, ¬ changed loc → t'.find? loc = t.find? loc

namespace ChangedAt

theorem refl (changed : Location → Prop) (t : FileTree) : ChangedAt changed t t :=
  ⟨rfl, fun _ => rfl, fun _ _ => rfl⟩

theorem trans (h : ChangedAt changed t t') (h' : ChangedAt changed t' t'') :
    ChangedAt changed t t'' :=
  ⟨h'.workDir.trans h.workDir, fun p => (h'.targets p).trans (h.targets p),
    fun loc hloc => (h'.elsewhere loc hloc).trans (h.elsewhere loc hloc)⟩

theorem mono {changed' : Location → Prop} (h : ChangedAt changed t t')
    (himp : ∀ loc, changed loc → changed' loc) : ChangedAt changed' t t' :=
  ⟨h.workDir, h.targets, fun loc hloc => h.elsewhere loc fun hc => hloc (himp loc hc)⟩

/-- A file that is put where there is room for it is the only one changed. -/
theorem of_put (hroom : t.HasRoom loc) (contents : List UInt8) :
    ChangedAt (· = loc) t (t.put loc (.file contents)) := by
  have hagree := hroom.agreeBut_put contents
  exact ⟨hagree.workDir, hagree.targetAt?_eq, hagree.elsewhere⟩

/-- What is in a changed file is what every path to it leads to. -/
theorem nodeAt?_eq (h : ChangedAt changed t t') (hp : t.targetAt? p = some (.file loc))
    {contents : List UInt8} (hfile : t'.find? loc = some (.file contents)) :
    t'.nodeAt? p = some (.file contents) :=
  nodeAt?_of_fileAt? (targetAt?_eq_file_iff.1 ((h.targets p).trans hp)) hfile

end ChangedAt

/-! ## Many files -/

variable {loc' : Location} {files : List (Location × List UInt8)}

/-- The tree with files put at locations, one after the other. -/
def putAll (t : FileTree) (files : List (Location × List UInt8)) : FileTree :=
  files.foldl (fun t w => t.put w.1 (.file w.2)) t

theorem putAll_nil (t : FileTree) : t.putAll [] = t := rfl

theorem putAll_cons (t : FileTree) (loc : Location) (contents : List UInt8)
    (files : List (Location × List UInt8)) :
    t.putAll ((loc, contents) :: files) = (t.put loc (.file contents)).putAll files := rfl

theorem putAll_append (t : FileTree) (a b : List (Location × List UInt8)) :
    t.putAll (a ++ b) = (t.putAll a).putAll b := List.foldl_append

/-- Putting one file leaves the room for another: a file is replaced by a file. -/
theorem HasRoom.put (h : t.HasRoom loc) (hroom : t.HasRoom loc') (contents : List UInt8) :
    (t.put loc' (.file contents)).HasRoom loc := by
  rw [HasRoom, find?_put hroom.ne_root]
  split
  · exact Or.inr ⟨contents, rfl⟩
  · exact h

/-- Putting files where there is room for them changes these files only. -/
theorem changedAt_putAll (hroom : ∀ w ∈ files, t.HasRoom w.1) :
    t.ChangedAt (· ∈ files.map (·.1)) (t.putAll files) := by
  -- a put takes away no room, so the others still have theirs in the tree behind it
  induction files generalizing t with
  | nil => exact .refl _ t
  | cons w rest ih =>
      obtain ⟨hw, hrest⟩ := List.forall_mem_cons.1 hroom
      have hfirst : t.ChangedAt (· ∈ (w :: rest).map (·.1)) (t.put w.1 (.file w.2)) :=
        (ChangedAt.of_put hw w.2).mono fun loc hloc => by simp [hloc]
      refine hfirst.trans ((ih fun w' hw' => (hrest w' hw').put hw w.2).mono fun loc hloc => ?_)
      exact List.mem_cons_of_mem _ hloc

/-- A file that is put once is there. -/
theorem find?_putAll {contents : List UInt8} (hroom : ∀ w ∈ files, t.HasRoom w.1)
    (hnodup : (files.map (·.1)).Nodup) (hmem : (loc, contents) ∈ files) :
    (t.putAll files).find? loc = some (.file contents) := by
  induction files generalizing t with
  | nil => exact nomatch hmem
  | cons w rest ih =>
      obtain ⟨hw, hrest⟩ := List.forall_mem_cons.1 hroom
      obtain ⟨hnot, hnodup⟩ := List.nodup_cons.1 hnodup
      have hlater : ∀ w' ∈ rest, (t.put w.1 (.file w.2)).HasRoom w'.1 :=
        fun w' hw' => (hrest w' hw').put hw w.2
      rcases List.mem_cons.1 hmem with heq | hmem
      · cases heq
        have hput : (t.put loc (.file contents)).find? loc = some (.file contents) := by
          rw [find?_put hw.ne_root, if_pos rfl]
        -- no later put is at this location
        exact ((changedAt_putAll hlater).elsewhere loc hnot).trans hput
      · exact ih hlater hnodup hmem

end FileTree

namespace Job

variable {h : Host} {p : Path} {target : Target} {t : FileTree}

/-- Emptying what a path opens changes that file only. -/
theorem changedAt_emptied (htarget : t.targetAt? p = some target) :
    t.ChangedAt (target = .file ·) (target.emptied t) := by
  cases target with
  | file loc =>
      have hroom := FileTree.hasRoom_of_fileAt? (FileTree.targetAt?_eq_file_iff.1 htarget)
      exact (FileTree.ChangedAt.of_put hroom []).mono fun loc' heq => heq ▸ rfl
  | nullDevice | fullDevice => exact .refl _ t

/-- A file that is opened is empty. -/
theorem find?_emptied {loc : Location} (htarget : t.targetAt? p = some (.file loc)) :
    ((Target.file loc).emptied t).find? loc = some (.file []) := by
  have hroom := FileTree.hasRoom_of_fileAt? (FileTree.targetAt?_eq_file_iff.1 htarget)
  exact (FileTree.find?_put hroom.ne_root _ loc).trans (if_pos rfl)

/-- The tree with bytes written to a target from a position on. -/
def Target.written (target : Target) (position : Nat) (bytes : List UInt8) (t : FileTree) :
    FileTree :=
  match target with
  | .file loc => overwrite loc position bytes t
  | .nullDevice | .fullDevice => t

/-- Writing to an open file always succeeds, and puts the bytes at the position. -/
theorem write_eq {ε : Type} (target : Target) (position : Nat) (bytes : List UInt8) (h : Host) :
    (target.write position bytes : Job ε Unit) h
      = .ok () { h with files := target.written position bytes h.files } := by
  cases target <;> rfl

/-- Only the file that was opened is changed. -/
theorem changedAt_written (target : Target) (position : Nat) (bytes : List UInt8)
    (t : FileTree) : t.ChangedAt (target = .file ·) (target.written position bytes t) := by
  cases target with
  | nullDevice | fullDevice => exact .refl _ t
  | file loc =>
      unfold Target.written overwrite
      dsimp only
      split
      · next old hfile =>
          exact (FileTree.ChangedAt.of_put (Or.inr ⟨old, hfile⟩) _).mono fun loc' heq => heq ▸ rfl
      · exact .refl _ t

/-- What is written at the end of a file stands behind the rest. -/
theorem overwritten_length (old bytes : List UInt8) :
    overwritten old old.length bytes = old ++ bytes := by
  rw [overwritten, List.take_length, Nat.sub_self, List.replicate_zero, List.append_nil,
    List.drop_eq_nil_of_le (Nat.le_add_right _ _), List.append_nil]

/-- What is written from the end of a file on is behind what was there. -/
theorem find?_written {loc : Location} {old : List UInt8}
    (hfile : t.find? loc = some (.file old)) (bytes : List UInt8) :
    ((Target.file loc).written old.length bytes t).find? loc
      = some (.file (old ++ bytes)) := by
  have hroom : t.HasRoom loc := Or.inr ⟨old, hfile⟩
  rw [Target.written, overwrite, hfile]
  dsimp only
  rw [FileTree.find?_put hroom.ne_root, if_pos rfl, overwritten_length]

end Job

end ExecTruth
