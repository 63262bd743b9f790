import ExecTruth.Proofs.Files.Openings
import ExecTruth.Proofs.Scoring.Comparisons
import ExecTruth.Proofs.Scoring.DetailLists
import ExecTruth.Proofs.Stream.HeldBack

/-! # List files — what a comparison leaves in the files of its lists

    Once both captures are read, the lists are opened one after the other, and the first that
    cannot be opened ends the comparison (`run_of_no_target`).  Which one that is can be told
    from the tree before: opening the others only empties their files.

    The details are written in blocks.  A block is written behind what its file has
    (`Holds.step`), so a file of one list alone has the lines of that list in the end
    (`writeBlocks_ofPieces`).  A file of two lists is written twice over from its beginning,
    and what it has then is neither.  Writing fails only if a full device is to take a
    line (`evaluateOn_eq`).

    No other file changes, and since the captures were read before, it does not matter whether
    a list takes the place of one of them (`run_of_opens`). -/

namespace ExecTruth

open Job FileTree

namespace Comparison

variable {h : Host} {t : FileTree} {targets : List Target} {paths : List Path}

/-- The files of targets. -/
def FileOf (targets : List Target) (loc : Location) : Prop := .file loc ∈ targets

/-! ## Writing blocks -/

section Blocks

variable {reached : List (Target × Nat)} {place position : Nat} {target : Target} {b : Block}
  {loc : Location} {text : List UInt8}

/-- A list that is written on stays the target that was opened. -/
theorem map_fst_set (h : reached[place]? = some (target, position)) (position' : Nat) :
    (reached.set place (target, position')).map (·.1) = reached.map (·.1) := by
  have hlt : place < (reached.map (·.1)).length := by
    rw [List.length_map]
    exact (List.getElem?_eq_some_iff.1 h).1
  refine List.ext_getElem? fun i => ?_
  rw [List.map_set]
  by_cases hi : place = i
  · rw [← hi, List.getElem?_set_self hlt, List.getElem?_map, h]
    rfl
  · rw [List.getElem?_set_ne hi]

/-- A text was written to the file at one place, which is at no other. -/
structure Holds (reached : List (Target × Nat)) (t : FileTree) (place : Nat) (loc : Location)
    (text : List UInt8) : Prop where
  reaches : reached[place]? = some (.file loc, text.length)
  file : t.find? loc = some (.file text)
  alone : ∀ place', (reached.map (·.1))[place']? = some (.file loc) → place' = place

/-- A block for a file is written behind its text, and one for another changes nothing of it. -/
theorem Holds.step (h : Holds reached t place loc text)
    (hget : reached[b.place]? = some (target, position)) :
    Holds (reached.set b.place (target, position + b.bytes.length))
      (target.written position b.bytes t) place loc (text ++ Blocks.textOf place [b]) := by
  have halone := h.alone
  rw [← map_fst_set hget (position + b.bytes.length)] at halone
  -- a block for this place goes behind its text; one for another goes to another file
  by_cases heq : b.place = place
  · subst heq
    cases h.reaches.symm.trans hget
    rw [Blocks.textOf_singleton rfl]
    refine ⟨?_, find?_written h.file b.bytes, halone⟩
    rw [List.getElem?_set_self (List.getElem?_eq_some_iff.1 hget).1, List.length_append]
  · have hnone : Blocks.textOf place [b] = [] := Blocks.textOf_cons_of_ne heq []
    rw [hnone, List.append_nil]
    refine ⟨?_, ?_, halone⟩
    · rw [List.getElem?_set_ne heq, h.reaches]
    · rw [(changedAt_written target position b.bytes t).elsewhere loc ?_, h.file]
      rintro rfl
      refine heq (h.alone b.place ?_)
      rw [List.getElem?_map, hget]
      rfl

/-- Blocks are written behind the texts of their files. -/
theorem writeBlocks_eq (reached : List (Target × Nat)) (blocks : List Block) (h : Host) :
    ∃ t, writeBlocks reached blocks h = .ok () { h with files := t }
      ∧ h.files.ChangedAt (FileOf (reached.map (·.1))) t
      ∧ ∀ place loc text, Holds reached h.files place loc text →
        t.find? loc = some (.file (text ++ Blocks.textOf place blocks)) := by
  -- the places where the next block goes are general, since each block moves one of them
  induction blocks generalizing reached h with
  | nil =>
      refine ⟨h.files, rfl, .refl _ _, fun place loc text hholds => ?_⟩
      rw [hholds.file]
      exact congrArg (some ∘ Node.file) (List.append_nil text).symm
  | cons b rest ih =>
      have htext : ∀ place, Blocks.textOf place (b :: rest)
          = Blocks.textOf place [b] ++ Blocks.textOf place rest := fun place =>
        Blocks.textOf_append place [b] rest
      rw [writeBlocks]
      cases hget : reached[b.place]? with
      | none =>
          obtain ⟨t, hrun, hchanged, htexts⟩ := ih reached h
          refine ⟨t, hrun, hchanged, fun place loc text hholds => ?_⟩
          have hne : b.place ≠ place := by
            rintro rfl
            exact nomatch hget.symm.trans hholds.reaches
          rw [Blocks.textOf_cons_of_ne hne]
          exact htexts place loc text hholds
      | some entry =>
          obtain ⟨target, position⟩ := entry
          obtain ⟨t, hrun, hchanged, htexts⟩ :=
            ih (reached.set b.place (target, position + b.bytes.length))
              { h with files := target.written position b.bytes h.files }
          rw [map_fst_set hget] at hchanged
          have hstep := (changedAt_written target position b.bytes h.files).mono
            fun loc (hloc : target = .file loc) => show FileOf (reached.map (·.1)) loc from
              List.mem_map.2 ⟨_, List.mem_of_getElem? hget, hloc⟩
          refine ⟨t, (bind_of_ok (write_eq ..)).trans hrun, hstep.trans hchanged,
            fun place loc text hholds => ?_⟩
          rw [htext, ← List.append_assoc]
          exact htexts place loc _ (hholds.step hget)

end Blocks

/-! ## Opening the lists -/

/-- The paths open the targets. -/
def Opens (t : FileTree) (paths : List Path) (targets : List Target) : Prop :=
  List.Forall₂ (fun p target => t.targetAt? p = some target) paths targets

/-- Paths that all open something open targets, one for each. -/
theorem exists_opens (h : ∀ p ∈ paths, t.targetAt? p ≠ none) :
    ∃ targets, Opens t paths targets := by
  induction paths with
  | nil => exact ⟨[], .nil⟩
  | cons p rest ih =>
      obtain ⟨hp, hrest⟩ := List.forall_mem_cons.1 h
      obtain ⟨target, htarget⟩ := Option.ne_none_iff_exists'.1 hp
      obtain ⟨targets, htargets⟩ := ih hrest
      exact ⟨target :: targets, .cons htarget htargets⟩

/-- The target in a place is what the path in that place opens. -/
theorem Opens.getElem?_eq (h : Opens t paths targets)
    (place : Nat) : targets[place]? = (paths[place]?).bind t.targetAt? := by
  induction h generalizing place with
  | nil => rfl
  | cons hp _ ih =>
      cases place with
      | zero => exact hp.symm
      | succ place => exact ih place

theorem Opens.length_eq (h : Opens t paths targets) :
    paths.length = targets.length := List.Forall₂.length_eq h

/-- A path leads to the file at a location, there or yet to be made. -/
def LedTo (t : FileTree) (paths : List Path) (loc : Location) : Prop :=
  ∃ p ∈ paths, t.targetAt? p = some (.file loc)

/-- A target is a file where a path leads to one. -/
theorem Opens.fileOf_iff {loc : Location}
    (h : Opens t paths targets) : FileOf targets loc ↔ LedTo t paths loc := by
  induction h with
  | nil => exact ⟨nofun, fun ⟨p, hp, _⟩ => nomatch hp⟩
  | cons hp _ ih =>
      rw [FileOf, List.mem_cons, LedTo, List.exists_mem_cons_iff, hp, Option.some_inj, eq_comm]
      exact or_congr Iff.rfl ih

/-- Lists that can be opened are: their files are empty then, and nothing else changes. -/
theorem createLists_eq (hopens : Opens h.files paths targets) :
    ∃ t, createLists paths h = .ok targets { h with files := t }
      ∧ h.files.ChangedAt (FileOf targets) t
      ∧ ∀ loc, FileOf targets loc → t.find? loc = some (.file []) := by
  induction paths generalizing targets h with
  | nil =>
      cases hopens
      exact ⟨h.files, rfl, .refl _ _, nofun⟩
  | cons p rest ih =>
      cases hopens with
      | @cons p target rest others htarget hothers =>
          have hcreate := wrap_eq_ok_iff (f := BatchFault.create p).2 (create_of_targetAt? htarget)
          have hstep := changedAt_emptied htarget
          have hothers' : Opens (target.emptied h.files) rest others :=
            hothers.imp fun q target' hq => (hstep.targets q).trans hq
          obtain ⟨t, hrun, hchanged, hempty⟩ :=
            ih (h := { h with files := target.emptied h.files }) hothers'
          refine ⟨t, ?_, ?_, fun loc hloc => ?_⟩
          · rw [createLists, bind_of_ok hcreate, bind_of_ok hrun]
            rfl
          · refine (hstep.mono fun loc hloc => ?_).trans (hchanged.mono fun loc hloc => ?_)
            · exact hloc ▸ List.mem_cons_self
            · exact List.mem_cons_of_mem target hloc
          · by_cases hlater : FileOf others loc
            · exact hempty loc hlater
            · -- it was the first that opened the file, and none of the others did
              obtain rfl : Target.file loc = target := (List.mem_cons.1 hloc).resolve_right hlater
              rw [hchanged.elsewhere loc hlater]
              exact find?_emptied htarget

/-- A failure at a later path is one of opening all, behind what was opened before. -/
theorem createLists_append {others : List Path} {h₁ h₂ : Host} {fault : BatchFault}
    (hpaths : createLists paths h = .ok targets h₁)
    (hothers : createLists others h₁ = .error fault h₂) :
    createLists (paths ++ others) h = .error fault h₂ := by
  induction paths generalizing targets h with
  | nil =>
      cases hpaths
      exact hothers
  | cons p rest ih =>
      obtain ⟨target, h', hcreate, hrest⟩ := bind_eq_ok_iff.1 hpaths
      obtain ⟨targets', h'', hrest, hend⟩ := bind_eq_ok_iff.1 hrest
      cases hend
      rw [List.cons_append, createLists, bind_of_ok hcreate]
      exact bind_of_error (ih hrest)

/-- The first list that cannot be opened ends the opening. -/
theorem createLists_of_no_target {front : List Path} {p : Path}
    (hfront : Opens h.files front targets) (hp : h.files.targetAt? p = none)
    (back : List Path) :
    ∃ fault t, createLists (front ++ p :: back) h
        = .error (.create p fault) { h with files := t }
      ∧ create p { h with files := t } = .error fault { h with files := t }
      ∧ h.files.ChangedAt (FileOf targets) t
      ∧ ∀ loc, FileOf targets loc → t.find? loc = some (.file []) := by
  obtain ⟨t, hrun, hchanged, hempty⟩ := createLists_eq hfront
  obtain ⟨fault, hcreate⟩ := create_of_no_target
    (h := { h with files := t }) ((hchanged.targets p).trans hp)
  refine ⟨fault, t, createLists_append hrun ?_, hcreate, hchanged, hempty⟩
  exact bind_of_error (wrap_eq_error_iff.2 ⟨fault, hcreate, rfl⟩)

/-! ## Writing the details -/

/-- The bytes of pieces are written one piece after the other. -/
theorem encode_join (pieces : List String) :
    Text.Utf8.encode (String.join pieces) = pieces.flatMap Text.Utf8.encode := by
  induction pieces with
  | nil => rfl
  | cons piece rest ih =>
      rw [String.join_cons, Text.Utf8.encode_append, ih, List.flatMap_cons]

/-- The pieces of details are the lines of their lists. -/
theorem bytesFor_piecesOf (k : DetailKind) (details : List Detail) :
    Blocks.bytesFor k.place (piecesOf details) = DetailList.textOf k details := by
  induction details with
  | nil => rfl
  | cons d rest ih =>
      have hpieces : piecesOf (d :: rest)
          = (d.pieces.map fun piece => (d.kind.place, Text.Utf8.encode piece)) ++ piecesOf rest :=
        rfl
      rw [hpieces, Blocks.bytesFor_append, ih, ← List.singleton_append,
        DetailList.textOf_append]
      congr 1
      -- the pieces of a detail are its line, all of them for its own place
      by_cases hk : d.kind = k
      · rw [Blocks.bytesFor_map_self (congrArg DetailKind.place hk), ← encode_join]
        simp [DetailList.textOf, hk, Detail.line]
      · rw [Blocks.bytesFor_map_of_ne fun heq => hk (DetailKind.place_injective heq)]
        simp [DetailList.textOf, hk]

/-- Every place that there can be is that of a list. -/
theorem exists_kind {place : Nat} (h : place < maxDetailLists) :
    ∃ k : DetailKind, k.place = place := by
  match place, h with
  | 0, _ => exact ⟨.falsePositive, rfl⟩
  | 1, _ => exact ⟨.falseNegative, rfl⟩
  | 2, _ => exact ⟨.unknown, rfl⟩

/-- A full device is to take a line. -/
def Overfull (targets : List Target) (text : DetailKind → List UInt8) : Prop :=
  ∃ k : DetailKind, targets[k.place]? = some .fullDevice ∧ text k ≠ []

variable {truth : GroundTruth} {statics : OffsetSet}

/-- A list that has no room for all its lines is for a full device. -/
theorem overfull_of_not_hasRoom (h : ¬ truth.HasRoom statics (targets.map roomOf)) :
    Overfull targets fun k => truth.textOf k (truth.scored statics) := by
  rw [GroundTruth.HasRoom] at h
  push Not at h
  obtain ⟨k, r, hroom, hfull⟩ := h
  rw [List.getElem?_map, Option.map_eq_some_iff] at hroom
  obtain ⟨target, htarget, hsize⟩ := hroom
  refine ⟨k, ?_, fun hnone : truth.textOf k _ = [] => ?_⟩
  · cases target with
    | file loc | nullDevice => exact nomatch hsize
    | fullDevice => exact htarget
  · rw [hnone] at hfull
    exact Nat.not_lt_zero r hfull

/-- Texts that are whole are refused if one is for a full device. -/
theorem refuses_iff {text : DetailKind → List UInt8} {texts : List (List UInt8)}
    (hfew : targets.length ≤ maxDetailLists)
    (htexts : ∀ (k : DetailKind) (room : Option Nat), (targets.map roomOf)[k.place]? = some room →
      texts[k.place]? = some (text k)) :
    (targets.zip texts).any (fun (t, own) => t.refuses true own) = true
      ↔ Overfull targets text := by
  have htext : ∀ (k : DetailKind) (target : Target), targets[k.place]? = some target →
      texts[k.place]? = some (text k) := by
    intro k target htarget
    refine htexts k (roomOf target) ?_
    rw [List.getElem?_map, htarget]
    rfl
  rw [List.any_eq_true]
  constructor
  · rintro ⟨⟨target, own⟩, hmem, hrefuses⟩
    obtain ⟨place, hplace⟩ := List.mem_iff_getElem?.1 hmem
    obtain ⟨htarget, hown⟩ := List.getElem?_zip_eq_some.1 hplace
    have hlt := (List.getElem?_eq_some_iff.1 htarget).1
    obtain ⟨k, rfl⟩ := exists_kind (Nat.lt_of_lt_of_le hlt hfew)
    obtain rfl : own = text k := Option.some.inj (hown.symm.trans (htext k target htarget))
    -- only the full device refuses bytes
    cases target with
    | file loc | nullDevice => exact nomatch hrefuses
    | fullDevice =>
        have hbytes : (!(text k).isEmpty) = true := hrefuses
        refine ⟨k, htarget, fun hnone => ?_⟩
        rw [hnone] at hbytes
        exact nomatch hbytes
  · rintro ⟨k, htarget, hnonempty⟩
    have hplace : (targets.zip texts)[k.place]? = some (.fullDevice, text k) :=
      List.getElem?_zip_eq_some.2 ⟨htarget, htext k _ htarget⟩
    refine ⟨(.fullDevice, text k), List.mem_of_getElem? hplace, ?_⟩
    show (!(text k).isEmpty) = true
    simpa using hnonempty

/-- The pieces of details that are written to empty files make up their texts. -/
theorem writeBlocks_ofPieces (hfew : targets.length ≤ maxDetailLists)
    (hempty : ∀ loc, FileOf targets loc → h.files.find? loc = some (.file []))
    (details : List Detail) :
    ∃ t, writeBlocks (targets.map (·, 0)) (Blocks.ofPieces targets.length (piecesOf details)) h
        = .ok () { h with files := t }
      ∧ h.files.ChangedAt (FileOf targets) t
      ∧ ∀ k loc, targets[DetailKind.place k]? = some (.file loc) →
        (∀ k', targets[DetailKind.place k']? = some (.file loc) → k' = k) →
          t.find? loc = some (.file (DetailList.textOf k details)) := by
  have hfst : (targets.map (·, 0)).map (·.1) = targets := by
    rw [List.map_map]
    exact List.map_id _
  obtain ⟨t, hrun, hchanged, htexts⟩ := writeBlocks_eq (targets.map (·, 0))
    (Blocks.ofPieces targets.length (piecesOf details)) h
  rw [hfst] at hchanged
  refine ⟨t, hrun, hchanged, fun k loc hk halone => ?_⟩
  have hlt := (List.getElem?_eq_some_iff.1 hk).1
  have hfile := hempty loc (List.mem_of_getElem? hk)
  have htext := htexts k.place loc [] ⟨?_, hfile, fun place hplace => ?_⟩
  · rwa [Blocks.textOf_ofPieces hlt, bytesFor_piecesOf, List.nil_append] at htext
  · rw [List.getElem?_map, hk]
    rfl
  · rw [hfst] at hplace
    have hless := (List.getElem?_eq_some_iff.1 hplace).1
    obtain ⟨k', rfl⟩ := exists_kind (Nat.lt_of_lt_of_le hless hfew)
    rw [halone k' hplace]

/-- All details are written, and the numbers given, unless a full device is to take a line. -/
theorem evaluateOn_eq (hfew : targets.length ≤ maxDetailLists)
    (hempty : ∀ loc, FileOf targets loc → h.files.find? loc = some (.file []))
    (truth : GroundTruth) (statics : OffsetSet) :
    let text := fun k => truth.textOf k (truth.scored statics)
    ∃ t, h.files.ChangedAt (FileOf targets) t
      ∧ (Overfull targets text
          ∧ evaluateOn targets truth statics h = .error (.io .deviceFull) { h with files := t }
        ∨ ¬ Overfull targets text
          ∧ (∃ events,
            evaluateOn targets truth statics h = .ok (truth.counts statics) ⟨t, events⟩)
          ∧ ∀ k loc, targets[DetailKind.place k]? = some (.file loc) →
            (∀ k', targets[DetailKind.place k']? = some (.file loc) → k' = k) →
              t.find? loc = some (.file (text k))) := by
  intro text
  obtain ⟨t, hrun, hchanged, htexts⟩ :=
    writeBlocks_ofPieces hfew hempty (truth.listed statics (targets.map roomOf))
  refine ⟨t, hchanged, ?_⟩
  have hcases := truth.evaluate_cases statics (targets.map roomOf)
  have hlisted := @GroundTruth.listed_of_ok truth statics (targets.map roomOf)
  rw [evaluateOn]
  generalize truth.evaluate statics (targets.map roomOf) = result at hcases hlisted
  obtain ⟨texts, outcome⟩ := result
  dsimp only at hcases hlisted ⊢
  rw [bind_of_ok hrun]
  rcases hcases with ⟨-, rfl, hwhole⟩ | ⟨hfull, rfl, -⟩
  · have hrefuses := refuses_iff hfew hwhole
    by_cases hover : Overfull targets text
    · rw [hrefuses.2 hover]
      exact Or.inl ⟨hover, rfl⟩
    · rw [Bool.eq_false_iff.2 fun h => hover (hrefuses.1 h)]
      rw [hlisted rfl] at htexts
      refine Or.inr ⟨hover, ⟨_, rfl⟩, fun k loc hk halone => ?_⟩
      rw [htexts k loc hk halone, truth.textOf_details]
  · -- the writing stops at a full device, which refuses what it was given as well
    refine Or.inl ⟨overfull_of_not_hasRoom hfull, ?_⟩
    cases (targets.zip texts).any fun (t, own) => t.refuses true own <;> rfl

/-! ## Comparing -/

variable {dynamicPath staticPath : Path} {capture : RichCapture}
  {statics : OffsetSet}

/-- The first list that cannot be opened ends the comparison. -/
theorem run_of_no_target {front back : List Path} {p : Path}
    (hdynamic : RichCapture.stored dynamicPath h.files = .ok capture)
    (hstatic : Legacy.stored staticPath h.files = .ok statics)
    (hlists : paths.take maxDetailLists = front ++ p :: back)
    (hfront : ∀ q ∈ front, h.files.targetAt? q ≠ none) (hp : h.files.targetAt? p = none) :
    ∃ fault h', run dynamicPath staticPath paths h = .error (.create p fault) h'
      ∧ create p h' = .error fault h' ∧ h'.events = h.events
      ∧ h.files.ChangedAt (LedTo h.files front) h'.files
      ∧ ∀ q ∈ front, ∀ loc, h.files.targetAt? q = some (.file loc) →
        h'.files.nodeAt? q = some (.file []) := by
  obtain ⟨targets, hopens⟩ := exists_opens hfront
  obtain ⟨fault, t, hrun, hcreate, hchanged, hempty⟩ :=
    createLists_of_no_target hopens hp back
  refine ⟨fault, { h with files := t }, ?_, hcreate, rfl,
    hchanged.mono fun loc => hopens.fileOf_iff.1, fun q hq loc hloc => ?_⟩
  · rw [run_of_stored hdynamic hstatic, hlists]
    exact bind_of_error hrun
  · exact hchanged.nodeAt?_eq hloc (hempty loc (hopens.fileOf_iff.2 ⟨q, hq, hloc⟩))

/-- One of the lists leads to a full device, and is to have a line. -/
def OverfullAt (t : FileTree) (lists : List Path) (text : DetailKind → List UInt8) : Prop :=
  ∃ k p, lists[k.place]? = some p ∧ t.targetAt? p = some .fullDevice ∧ text k ≠ []

/-- Each list that leads to a file, and to which no other list leads, has its text there. -/
def HaveOwn (t : FileTree) (lists : List Path) (text : DetailKind → List UInt8) (t' : FileTree) :
    Prop :=
  ∀ k p loc, lists[k.place]? = some p → t.targetAt? p = some (.file loc) →
    (∀ k' p', lists[k'.place]? = some p' → t.targetAt? p' = some (.file loc) → k' = k) →
      t'.nodeAt? p = some (.file (text k))

/-- Every target was opened by the path in its place. -/
theorem Opens.getElem?_eq_some_iff {target : Target}
    (h : Opens t paths targets) {place : Nat} : targets[place]? = some target
      ↔ ∃ p, paths[place]? = some p ∧ t.targetAt? p = some target := by
  rw [h.getElem?_eq, Option.bind_eq_some_iff]

/-- Lists that can be opened are written, unless a full device is to take a line. -/
theorem run_of_opens (hdynamic : RichCapture.stored dynamicPath h.files = .ok capture)
    (hstatic : Legacy.stored staticPath h.files = .ok statics) (paths : List Path)
    (hlists : ∀ p ∈ paths.take maxDetailLists, h.files.targetAt? p ≠ none) :
    let t := h.files
    let lists := paths.take maxDetailLists
    let truth : GroundTruth := ⟨capture.table, capture.base⟩
    let text := fun k => truth.textOf k (truth.scored statics)
    ∃ h', t.ChangedAt (LedTo t lists) h'.files
      ∧ (OverfullAt t lists text
          ∧ run dynamicPath staticPath paths h = .error (.io .deviceFull) h'
        ∨ ¬ OverfullAt t lists text
          ∧ run dynamicPath staticPath paths h = .ok ⟨capture.digest, capture.base,
            capture.table.size, statics.size, truth.counts statics⟩ h'
          ∧ HaveOwn t lists text h'.files) := by
  intro t lists truth text
  obtain ⟨targets, hopens⟩ := exists_opens hlists
  have hfew : targets.length ≤ maxDetailLists :=
    hopens.length_eq ▸ List.length_take_le _ _
  obtain ⟨t₁, hcreate, hopened, hempty⟩ := createLists_eq hopens
  obtain ⟨t₂, hwritten, houtcome⟩ := evaluateOn_eq (h := { h with files := t₁ })
    hfew hempty truth statics
  have hchanged := (hopened.trans hwritten).mono fun loc => hopens.fileOf_iff.1
  have hover : Overfull targets text ↔ OverfullAt t lists text := by
    refine exists_congr fun k => ?_
    rw [hopens.getElem?_eq_some_iff, ← exists_and_right]
    simp only [and_assoc]
    rfl
  rw [run_of_stored hdynamic hstatic, bind_of_ok hcreate, ← hover]
  -- a list on the full device ends the run, with what was written to the others
  rcases houtcome with ⟨hfull, hrun⟩ | ⟨hnot, ⟨events, hrun⟩, htexts⟩
  · exact ⟨_, hchanged, Or.inl ⟨hfull, bind_of_error hrun⟩⟩
  · rw [bind_of_ok hrun]
    refine ⟨_, hchanged, Or.inr ⟨hnot, rfl, fun k p loc hp hloc halone => ?_⟩⟩
    refine hchanged.nodeAt?_eq hloc (htexts k loc (hopens.getElem?_eq_some_iff.2 ⟨p, hp, hloc⟩) ?_)
    intro k' hk'
    obtain ⟨p', hp', hloc'⟩ := hopens.getElem?_eq_some_iff.1 hk'
    exact halone k' p' hp' hloc'

/-- **FILES OF LISTS**.  If a capture cannot be read, the first that cannot is what is wrong, and
    nothing changes.  Otherwise the first list that cannot be opened is, and the files of those
    in front of it are there and empty.  If all can be opened, the comparison gives what it
    gives without any list, unless a full device is to take a line; each list with a file of
    its own has just its lines there.  In any case no file changes but those that one of the
    first three lists leads to. -/
theorem run_changes_lists (dynamicPath staticPath : Path) (paths : List Path) (h : Host) :
    let t := h.files
    let lists := paths.take maxDetailLists
    (∀ fault, RichCapture.stored dynamicPath t = .error fault →
      run dynamicPath staticPath paths h = .error (.capture dynamicPath fault) h)
    ∧ (∀ capture fault, RichCapture.stored dynamicPath t = .ok capture →
      Legacy.stored staticPath t = .error fault →
        run dynamicPath staticPath paths h = .error (.capture staticPath fault) h)
    ∧ ∀ capture statics, RichCapture.stored dynamicPath t = .ok capture →
      Legacy.stored staticPath t = .ok statics →
        (∀ front p back, lists = front ++ p :: back → (∀ q ∈ front, t.targetAt? q ≠ none) →
          t.targetAt? p = none →
            ∃ fault h', run dynamicPath staticPath paths h = .error (.create p fault) h'
              ∧ create p h' = .error fault h' ∧ h'.events = h.events
              ∧ t.ChangedAt (LedTo t front) h'.files
              ∧ ∀ q ∈ front, ∀ loc, t.targetAt? q = some (.file loc) →
                h'.files.nodeAt? q = some (.file []))
        ∧ ((∀ p ∈ lists, t.targetAt? p ≠ none) →
          let truth : GroundTruth := ⟨capture.table, capture.base⟩
          let text := fun k => truth.textOf k (truth.scored statics)
          ∃ h', t.ChangedAt (LedTo t lists) h'.files
            ∧ (OverfullAt t lists text
                ∧ run dynamicPath staticPath paths h = .error (.io .deviceFull) h'
              ∨ ¬ OverfullAt t lists text
                ∧ (∃ evaluation, run dynamicPath staticPath paths h = .ok evaluation h'
                  ∧ ∃ events, run dynamicPath staticPath [] h = .ok evaluation ⟨t, events⟩)
                ∧ HaveOwn t lists text h'.files)) := by
  intro t lists
  refine ⟨fun fault hdynamic => ?_, fun capture fault hdynamic hstatic => ?_,
    fun capture statics hdynamic hstatic => ⟨?_, ?_⟩⟩
  · exact run_of_no_capture hdynamic staticPath paths
  · exact run_of_no_statics hdynamic hstatic paths
  · intro front p back hlists hfront hp
    exact run_of_no_target hdynamic hstatic hlists hfront hp
  · intro hlists truth text
    obtain ⟨h', hchanged, houtcome⟩ := run_of_opens hdynamic hstatic paths hlists
    obtain ⟨events, hnone⟩ := run_nil_of_stored hdynamic hstatic
    refine ⟨h', hchanged, houtcome.imp_right fun ⟨hnot, hrun, htexts⟩ => ?_⟩
    exact ⟨hnot, ⟨_, hrun, events, hnone⟩, htexts⟩

/-! ## Two starts inside one instruction -/

/-- The lists at `o` and in the place of the legacy capture have their lines, and the legacy
    capture has been read before. -/
theorem run_changes_lists_over_static :
    ∃ evaluation h' events,
      run ⟨[99]⟩ ⟨[115]⟩ [⟨[111]⟩, ⟨[115]⟩] ⟨bothCaptures, []⟩ = .ok evaluation h'
      ∧ run ⟨[99]⟩ ⟨[115]⟩ [] ⟨bothCaptures, []⟩ = .ok evaluation ⟨bothCaptures, events⟩
      ∧ h'.files.nodeAt? ⟨[111]⟩
        = some (.file (Text.Utf8.encode "0x11 in 0x10 len 5\n0x12 in 0x10 len 5\n"))
      ∧ h'.files.nodeAt? ⟨[115]⟩ = some (.file (Text.Utf8.encode "0x10 len 5\n")) := by
  have hfirst : bothCaptures.targetAt? ⟨[111]⟩ = some (.file [[111]]) :=
    targetAt?_eq_file_iff.2 (fileAt?_name rfl rfl rfl (by decide) (Or.inl rfl))
  have hsecond : bothCaptures.targetAt? ⟨[115]⟩ = some (.file [[115]]) :=
    targetAt?_eq_file_iff.2 (fileAt?_name rfl rfl rfl (by decide) (Or.inr ⟨_, rfl⟩))
  obtain ⟨hrich, hlegacy⟩ := stored_bothCaptures
  have hboth : ∀ p ∈ [(⟨[111]⟩ : Path), ⟨[115]⟩], ∃ loc,
      bothCaptures.targetAt? p = some (.file loc) :=
    List.forall_mem_cons.2 ⟨⟨_, hfirst⟩, List.forall_mem_singleton.2 ⟨_, hsecond⟩⟩
  obtain ⟨-, -, hread⟩ :=
    run_changes_lists ⟨[99]⟩ ⟨[115]⟩ [⟨[111]⟩, ⟨[115]⟩] ⟨bothCaptures, []⟩
  obtain ⟨-, hopened⟩ := hread oneInstruction (.ofOffsets [0x11, 0x12]) hrich hlegacy
  obtain ⟨h', -, houtcome⟩ := hopened fun p hp hnone => by
    obtain ⟨loc, hloc⟩ := hboth p hp
    cases hnone.symm.trans hloc
  rcases houtcome with ⟨⟨k, p, hp, hfull, -⟩, -⟩ | ⟨-, ⟨evaluation, hrun, events, hnone⟩, htexts⟩
  · obtain ⟨loc, hloc⟩ := hboth p (List.mem_of_getElem? hp)
    cases hfull.symm.trans hloc
  · refine ⟨evaluation, h', events, hrun, hnone, ?_, ?_⟩
    · rw [htexts .falsePositive ⟨[111]⟩ [[111]] rfl hfirst ?_]
      · decide +kernel
      · intro k' p' hp' hloc'
        cases k' with
        | falsePositive => rfl
        | falseNegative =>
            cases hp'
            exact absurd (hsecond.symm.trans hloc') (by decide)
        | unknown => cases hp'
    · rw [htexts .falseNegative ⟨[115]⟩ [[115]] rfl hsecond ?_]
      · decide +kernel
      · intro k' p' hp' hloc'
        cases k' with
        | falsePositive =>
            cases hp'
            exact absurd (hfirst.symm.trans hloc') (by decide)
        | falseNegative => rfl
        | unknown => cases hp'

/-- Two lists whose paths are distinct, but lead to one file: they cannot both have their
    lines. -/
theorem run_two_lists_in_one_file :
    let lists : List Path := [⟨[111]⟩, ⟨[46, 47, 111]⟩]
    let truth : GroundTruth := ⟨oneInstruction.table, oneInstruction.base⟩
    let statics := OffsetSet.ofOffsets [0x11, 0x12]
    (lists.map Path.components).Nodup
    ∧ RichCapture.stored ⟨[99]⟩ bothCaptures = .ok oneInstruction
    ∧ Legacy.stored ⟨[115]⟩ bothCaptures = .ok statics
    ∧ ∃ evaluation h', run ⟨[99]⟩ ⟨[115]⟩ lists ⟨bothCaptures, []⟩ = .ok evaluation h'
      ∧ ¬ ∀ k p, lists[k.place]? = some p →
        h'.files.nodeAt? p = some (.file (truth.textOf k (truth.scored statics))) := by
  intro lists truth statics
  have hfirst : bothCaptures.targetAt? ⟨[111]⟩ = some (.file [[111]]) :=
    targetAt?_eq_file_iff.2 (fileAt?_name rfl rfl rfl (by decide) (Or.inl rfl))
  have hsecond : bothCaptures.targetAt? ⟨[46, 47, 111]⟩ = some (.file [[111]]) :=
    targetAt?_eq_file_iff.2 (fileAt?_eq_some_iff.2
      ⟨rfl, _, .stay (Or.inl rfl) (.absent (by decide) rfl), rfl⟩)
  obtain ⟨hrich, hlegacy⟩ := stored_bothCaptures
  have hboth : ∀ p ∈ lists, bothCaptures.targetAt? p = some (.file [[111]]) :=
    List.forall_mem_cons.2 ⟨hfirst, List.forall_mem_singleton.2 hsecond⟩
  obtain ⟨h', hchanged, houtcome⟩ := run_of_opens (h := ⟨bothCaptures, []⟩)
    hrich hlegacy lists fun p hp hnone => by cases hnone.symm.trans (hboth p hp)
  rcases houtcome with ⟨⟨k, p, hp, hfull, -⟩, -⟩ | ⟨-, hrun, -⟩
  · cases hfull.symm.trans (hboth p (List.mem_of_getElem? hp))
  refine ⟨by decide, hrich, hlegacy, _, h', hrun, fun hown => ?_⟩
  -- both paths still lead to the one file, which has one text
  have hleads : ∀ p ∈ lists, h'.files.fileAt? p = some [[111]] := fun p hp =>
    targetAt?_eq_file_iff.1 ((hchanged.targets p).trans (hboth p hp))
  have htext := hown .falsePositive ⟨[111]⟩ rfl
  have htext' := hown .falseNegative ⟨[46, 47, 111]⟩ rfl
  rcases hasRoom_of_fileAt? (hleads ⟨[111]⟩ List.mem_cons_self) with hnone | ⟨contents, hfile⟩
  · rw [nodeAt?, locate_of_absent (hleads _ List.mem_cons_self) hnone] at htext
    cases htext
  · rw [nodeAt?_of_fileAt? (hleads _ List.mem_cons_self) hfile] at htext
    rw [nodeAt?_of_fileAt? (hleads _ (by decide)) hfile, htext] at htext'
    exact absurd htext' (by decide +kernel)

end Comparison

end ExecTruth
