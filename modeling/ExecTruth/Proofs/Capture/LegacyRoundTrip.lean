import ExecTruth.Proofs.Capture.Stored

/-! # Legacy captures read back — the addresses that were written, and their bytes

    Writing adds the load base to each offset, and goes to the end exactly if each sum is
    an offset again (`outcome_emit_eq_ok_iff`).  What it writes then are the addresses,
    eight bytes each, and reading gives them back one by one (`addresses_flatMap`), so a
    file filled with them is read as the set of these addresses (`stored_of_fileAt?`). -/

namespace ExecTruth.Legacy

open Job

variable {base : Int64} {offsets sums : List Int64}

/-- The addresses are the offsets with the load base added, over the integers. -/
def Rebased (base : Int64) (offsets sums : List Int64) : Prop :=
  sums.map Int64.toInt = offsets.map fun o => o.toInt + base.toInt

theorem Rebased.length_eq (h : Rebased base offsets sums) :
    sums.length = offsets.length := by
  have hlength := congrArg List.length h
  rwa [List.length_map, List.length_map] at hlength

/-- Sums are made one by one. -/
theorem rebased_cons_iff {o a : Int64} :
    Rebased base (o :: offsets) (a :: sums)
      ↔ Word.checkedAdd o base = some a ∧ Rebased base offsets sums := by
  rw [Rebased, List.map_cons, List.map_cons, List.cons.injEq, Word.checkedAdd_eq_some_iff]
  rfl

/-- Adding a load base keeps the order, where nothing wraps. -/
theorem Rebased.ascending (h : Rebased base offsets sums)
    (hoffsets : offsets.Pairwise fun o o' => o.toInt < o'.toInt) :
    sums.Pairwise fun a a' => a.toInt < a'.toInt := by
  refine List.pairwise_map.1 (?_ : (sums.map Int64.toInt).Pairwise (· < ·))
  rw [h]
  exact List.pairwise_map.2 (hoffsets.imp fun hlt => Int.add_lt_add_right hlt _)

/-- Where all sums fit, the addresses are written. -/
theorem emit_of_rebased (h : Rebased base offsets sums) :
    emit base offsets = ⟨sums.flatMap Word.encodeOffset, none⟩ := by
  induction offsets generalizing sums with
  | nil =>
      rw [List.eq_nil_of_length_eq_zero h.length_eq]
      rfl
  | cons o rest ih =>
      cases sums with
      | nil => exact nomatch h.length_eq
      | cons a more =>
          obtain ⟨ha, hmore⟩ := rebased_cons_iff.1 h
          rw [emit, ha, ih hmore]
          rfl

/-- Writing is to the end exactly if all sums fit. -/
theorem outcome_emit_eq_ok_iff :
    (emit base offsets).outcome = .ok () ↔ ∃ sums, Rebased base offsets sums := by
  constructor
  · intro hout
    -- writing goes on only behind an offset that has an address
    induction offsets with
    | nil => exact ⟨[], rfl⟩
    | cons o rest ih =>
        rw [emit] at hout
        cases ha : Word.checkedAdd o base with
        | none =>
            rw [ha] at hout
            exact nomatch hout
        | some a =>
            rw [ha] at hout
            obtain ⟨more, hmore⟩ := ih hout
            exact ⟨a :: more, rebased_cons_iff.2 ⟨ha, hmore⟩⟩
  · rintro ⟨sums, h⟩
    rw [emit_of_rebased h]
    rfl

/-! ## Reading -/

/-- Every address is eight bytes. -/
theorem length_flatMap_encodeOffset (l : List Int64) :
    (l.flatMap Word.encodeOffset).length = 8 * l.length := by
  induction l with
  | nil => rfl
  | cons a rest ih =>
      rw [List.flatMap_cons, List.length_append, Word.length_encodeOffset, ih, List.length_cons]
      omega

/-- Addresses are read as they were written. -/
theorem addresses_flatMap (l : List Int64) :
    addresses l.length (l.flatMap Word.encodeOffset) = l := by
  induction l with
  | nil => rfl
  | cons a rest ih =>
      have hlength : (Word.encodeOffset a).length = 8 := Word.length_encodeOffset a
      rw [List.flatMap_cons, List.length_cons, addresses, ← hlength, List.take_left,
        List.drop_left, Word.decodeOffset_encodeOffset, ih]

/-- The bytes of addresses are whole addresses, so they are read as their set. -/
theorem ofBytes_flatMap (l : List Int64) :
    ofBytes (l.flatMap Word.encodeOffset) = .ok (.ofOffsets l) := by
  have hlength := length_flatMap_encodeOffset l
  have hcount : (l.flatMap Word.encodeOffset).length / 8 = l.length := by omega
  rw [ofBytes, if_pos (by omega), hcount, addresses_flatMap]

/-- The set of addresses that a path leads to, or why there is none. -/
def stored (p : Path) (t : FileTree) : Except CaptureFault OffsetSet :=
  (sourceAt p t).mapError .ofIo >>= fun s => parse s

theorem answers_load (p : Path) : (load p).Answers (stored p) :=
  ((answers_openSource p).wrap CaptureFault.ofIo).bind fun s => answers_ofExcept (parse s)

/-- A file filled with addresses is read back as their set. -/
theorem stored_of_fileAt? {t : FileTree} {p : Path} {loc : Location} {l : List Int64}
    (hloc : t.fileAt? p = some loc)
    (hfile : t.find? loc = some (.file (l.flatMap Word.encodeOffset))) :
    stored p t = .ok (.ofOffsets l) := by
  have hsource : sourceAt p t = .ok (.ofBytes (l.flatMap Word.encodeOffset)) := by
    rw [sourceAt, FileTree.locate_of_fileAt? hloc hfile]
    rfl
  have hread : (Source.ofBytes (l.flatMap Word.encodeOffset)).readAll
      = .ok (l.flatMap Word.encodeOffset) := by
    rw [Source.readAll, Source.ofBytes, Source.bytes, List.flatten_singleton]
  have hparse : parse (.ofBytes (l.flatMap Word.encodeOffset)) = .ok (.ofOffsets l) := by
    rw [parse, hread]
    exact ofBytes_flatMap l
  rw [stored, hsource]
  exact hparse

end ExecTruth.Legacy
