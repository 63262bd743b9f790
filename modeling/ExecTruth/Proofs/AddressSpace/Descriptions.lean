import ExecTruth.AddressSpace.AddressMap
import ExecTruth.Proofs.AddressSpace.NamePools
import Mathlib.Data.List.TakeWhile

/-! # Descriptions of address spaces — what is read of one, and for which file

    A description is rejected for its first line that is neither blank nor a mapping, and
    the fault gives the number of that line among all lines (`fault_ofText_eq_some_iff`).
    Otherwise its mappings are those of its lines, and the map of a file is made of the
    ranges of the lines with that file, in their order.  The names of other files do not
    come into it, whatever pool they are kept in (`AddressMap.ofText_eq`). -/

namespace ExecTruth

namespace Mapping

/-- The line may not stand in a description: it is neither blank nor a mapping. -/
def Rejected (line : List Char) : Prop :=
  line.all Text.isBlank = false ∧ parse? line = none

instance (line : List Char) : Decidable (Rejected line) :=
  inferInstanceAs (Decidable (_ ∧ _))

/-- The fault is that of the first of some lines that is rejected; `number` is that of the
    first line. -/
def FirstRejected (number : Nat) (lines : List (List Char)) (fault : MapsFault) : Prop :=
  ∃ front line back, lines = front ++ line :: back ∧ (∀ l ∈ front, ¬ Rejected l)
    ∧ Rejected line ∧ fault = .malformed (number + front.length) (String.ofList line)

variable {number : Nat} {line : List Char} {rest lines : List (List Char)} {fault : MapsFault}

/-- A rejected line is the first one if it comes first. -/
theorem firstRejected_cons_of_rejected (h : Rejected line) :
    FirstRejected number (line :: rest) fault ↔ fault = .malformed number (String.ofList line) := by
  constructor
  · rintro ⟨front, line', back, hlines, hfront, -, rfl⟩
    cases front with
    | nil =>
        cases hlines
        rfl
    | cons l front =>
        cases hlines
        exact absurd h (hfront _ List.mem_cons_self)
  · rintro rfl
    exact ⟨[], line, rest, rfl, nofun, h, rfl⟩

/-- Any other line only counts. -/
theorem firstRejected_cons_of_not_rejected (h : ¬ Rejected line) :
    FirstRejected number (line :: rest) fault ↔ FirstRejected (number + 1) rest fault := by
  constructor
  · rintro ⟨front, line', back, hlines, hfront, hline, rfl⟩
    -- the line in front cannot be the rejected one, so it is the first of those before it
    cases front with
    | nil =>
        cases hlines
        exact absurd hline h
    | cons l front =>
        cases hlines
        have hrest : ∀ l ∈ front, ¬ Rejected l := fun l hl => hfront l (List.mem_cons_of_mem _ hl)
        refine ⟨front, line', back, rfl, hrest, hline, ?_⟩
        rw [List.length_cons, Nat.add_right_comm, Nat.add_assoc]
  · rintro ⟨front, line', back, rfl, hfront, hline, rfl⟩
    refine ⟨line :: front, line', back, rfl, List.forall_mem_cons.2 ⟨h, hfront⟩, hline, ?_⟩
    rw [List.length_cons, Nat.add_right_comm, Nat.add_assoc]

/-- There is such a fault if any line is rejected. -/
theorem exists_firstRejected_iff :
    (∃ fault, FirstRejected number lines fault) ↔ ∃ line ∈ lines, Rejected line := by
  -- the number grows by one behind each line that is not rejected
  induction lines generalizing number with
  | nil =>
      refine iff_of_false ?_ (by simp)
      rintro ⟨fault, front, line, back, hlines, -⟩
      exact absurd hlines (by simp)
  | cons line rest ih =>
      by_cases h : Rejected line
      · simp only [firstRejected_cons_of_rejected h, exists_eq, List.mem_cons]
        exact iff_of_true trivial ⟨line, Or.inl rfl, h⟩
      · simp only [firstRejected_cons_of_not_rejected h, ih, List.mem_cons, exists_eq_or_imp,
          or_iff_right h]

/-! ## Reading the lines -/

/-- A blank line is no mapping. -/
theorem parse?_of_blank (h : line.all Text.isBlank = true) : parse? line = none := by
  have hword : Text.nextWord line = none := by
    have htrim : Text.trimStart line = [] := List.dropWhile_eq_nil_iff.2 (List.all_eq_true.1 h)
    rw [Text.nextWord, htrim]
  rw [parse?, hword]
  rfl

/-- A blank line is passed. -/
theorem ofLines_cons_of_blank (h : line.all Text.isBlank = true) :
    ofLines number (line :: rest) = ofLines (number + 1) rest := if_pos h

/-- A rejected line ends the reading, and the fault tells its number. -/
theorem ofLines_cons_of_rejected (h : Rejected line) :
    ofLines number (line :: rest) = ([], some (.malformed number (String.ofList line))) := by
  rw [ofLines, if_neg (by simp [h.1]), h.2]

/-- A mapping is read in front of those behind it. -/
theorem ofLines_cons_of_parse? {m : Mapping} (h : parse? line = some m) :
    ofLines number (line :: rest)
      = (m :: (ofLines (number + 1) rest).1, (ofLines (number + 1) rest).2) := by
  have hblank : ¬ line.all Text.isBlank = true := fun hblank =>
    nomatch (parse?_of_blank hblank).symm.trans h
  rw [ofLines, if_neg hblank, h]

/-- There is no fourth kind of line. -/
theorem blank_or_rejected_or_mapping (line : List Char) :
    line.all Text.isBlank = true ∨ Rejected line ∨ ∃ m, parse? line = some m := by
  cases hblank : line.all Text.isBlank with
  | true => exact Or.inl rfl
  | false =>
      cases hparse : parse? line with
      | none => exact Or.inr (Or.inl ⟨hblank, hparse⟩)
      | some m => exact Or.inr (Or.inr ⟨m, rfl⟩)

theorem not_rejected_of_blank (h : line.all Text.isBlank = true) : ¬ Rejected line :=
  fun hrejected => nomatch h.symm.trans hrejected.1

theorem not_rejected_of_parse? {m : Mapping} (h : parse? line = some m) : ¬ Rejected line :=
  fun hrejected => nomatch h.symm.trans hrejected.2

/-- The reading ends with a fault exactly for the first line that is rejected. -/
theorem fault_ofLines_eq_some_iff :
    (ofLines number lines).2 = some fault ↔ FirstRejected number lines fault := by
  induction lines generalizing number with
  | nil =>
      refine iff_of_false nofun ?_
      rintro ⟨front, line, back, hlines, -⟩
      exact absurd hlines (by simp)
  | cons line rest ih =>
      rcases blank_or_rejected_or_mapping line with h | h | ⟨m, h⟩
      · rw [ofLines_cons_of_blank h, ih,
          firstRejected_cons_of_not_rejected (not_rejected_of_blank h)]
      · rw [ofLines_cons_of_rejected h, firstRejected_cons_of_rejected h, Option.some_inj, eq_comm]
      · rw [ofLines_cons_of_parse? h, ih,
          firstRejected_cons_of_not_rejected (not_rejected_of_parse? h)]

/-- Without a fault, all mappings are read. -/
theorem mappings_ofLines (h : (ofLines number lines).2 = none) :
    (ofLines number lines).1 = lines.filterMap parse? := by
  induction lines generalizing number with
  | nil => rfl
  | cons line rest ih =>
      rcases blank_or_rejected_or_mapping line with hline | hline | ⟨m, hline⟩
      · rw [ofLines_cons_of_blank hline] at h ⊢
        rw [ih h, List.filterMap_cons_none (parse?_of_blank hline)]
      · rw [ofLines_cons_of_rejected hline] at h
        exact nomatch h
      · rw [ofLines_cons_of_parse? hline] at h ⊢
        rw [ih h, List.filterMap_cons_some hline]

/-- A description is rejected for the first of its lines that is. -/
theorem fault_ofText_eq_some_iff {text : String} :
    (ofText text).2 = some fault ↔ FirstRejected 1 (Text.lines text.toList) fault :=
  fault_ofLines_eq_some_iff

/-! ## The lines of one file -/

/-- The range of a mapping, if it is one of the target. -/
def rangeOf? (target : Path) (m : Mapping) : Option MappedRange :=
  m.path.bind fun p => if (Path.ofString p).Same target then some m.range else none

/-- The ranges of the lines with the target, in their order. -/
def rangesOf (target : Path) (text : String) : List MappedRange :=
  (Text.lines text.toList).filterMap fun line => (parse? line).bind (rangeOf? target)

end Mapping

namespace AddressMap

/-- The ranges of one file, picked by its path, are those of its mappings. -/
theorem ranges_backed (target : Path) (ms : List Mapping) :
    ((backed ms).filter fun file => file.1.Same target).map (·.2)
      = ms.filterMap (Mapping.rangeOf? target) := by
  induction ms with
  | nil => rfl
  | cons m rest ih =>
      have hrange : m.rangeOf? target
          = m.path.bind fun p => if (Path.ofString p).Same target then some m.range else none := rfl
      -- a mapping without a path is on neither side; one with a path may be the target's or
      -- another's
      cases hpath : m.path with
      | none =>
          have hbacked : backed (m :: rest) = backed rest :=
            List.filterMap_cons_none (by rw [hpath]; rfl)
          rw [hpath, Option.bind_none] at hrange
          rw [hbacked, ih, List.filterMap_cons_none hrange]
      | some p =>
          have hbacked : backed (m :: rest) = (Path.ofString p, m.range) :: backed rest :=
            List.filterMap_cons_some (by rw [hpath]; rfl)
          rw [hpath, Option.bind_some] at hrange
          rw [hbacked]
          by_cases hsame : (Path.ofString p).Same target
          · rw [if_pos hsame] at hrange
            rw [List.filter_cons_of_pos (by simp [hsame]), List.map_cons, ih,
              List.filterMap_cons_some hrange]
          · rw [if_neg hsame] at hrange
            rw [List.filter_cons_of_neg (by simp [hsame]), ih, List.filterMap_cons_none hrange]

/-- The map of a file that a description gives, or why it gives none. -/
def ofDescription (target : Path) (text : String) : Except MapsFault AddressMap :=
  match (Mapping.ofText text).2 with
  | some fault => .error fault
  | none => .ok (ofRanges (Mapping.rangesOf target text))

/-- There is no map exactly if a line is rejected, and the first one tells why. -/
theorem ofDescription_eq_error_iff {target : Path} {text : String} {fault : MapsFault} :
    ofDescription target text = .error fault
      ↔ Mapping.FirstRejected 1 (Text.lines text.toList) fault := by
  rw [← Mapping.fault_ofText_eq_some_iff, ofDescription]
  cases (Mapping.ofText text).2 with
  | none => exact iff_of_false nofun nofun
  | some fault' => exact ⟨fun h => congrArg some (Except.error.inj h),
      fun h => congrArg Except.error (Option.some.inj h)⟩

/-- Otherwise the map is made of the ranges of the target. -/
theorem ofDescription_eq_ok_iff {target : Path} {text : String} {m : AddressMap} :
    ofDescription target text = .ok m
      ↔ (Mapping.ofText text).2 = none ∧ m = ofRanges (Mapping.rangesOf target text) := by
  rw [ofDescription]
  cases (Mapping.ofText text).2 with
  | none => exact ⟨fun h => ⟨rfl, (Except.ok.inj h).symm⟩, fun h => congrArg Except.ok h.2.symm⟩
  | some fault => exact iff_of_false nofun fun h => nomatch h.1

/-- What a description gives depends on no other name in the pool. -/
theorem ofText_eq {text : String} {target : Path} {id : NameId} {pool : NamePool}
    (htarget : pool.find? target = some id) :
    (ofText text (some id) pool).1 = ofDescription target text := by
  rw [ofText, ofDescription]
  dsimp only
  cases hfault : (Mapping.ofText text).2 with
  | some fault => rfl
  | none =>
      have hmappings : (Mapping.ofText text).1
          = (Text.lines text.toList).filterMap Mapping.parse? := Mapping.mappings_ofLines hfault
      have hown := NamePool.filter_internAll htarget (backed (Mapping.ofText text).1)
      dsimp only
      rw [Mapping.rangesOf, ← List.filterMap_filterMap, ← hmappings, ← ranges_backed, ← hown,
        List.map_map]
      rfl

/-- The target keeps its name, whatever is read. -/
theorem find?_ofText {target : Path} {id : NameId} {pool : NamePool}
    (htarget : pool.find? target = some id) (text : String) (own : Option NameId) :
    (ofText text own pool).2.find? target = some id := by
  have hkeeps :=
    NamePool.find?_internAll_of_some htarget ((backed (Mapping.ofText text).1).map (·.1))
  rw [ofText]
  dsimp only
  cases (Mapping.ofText text).2 with
  | some fault => exact hkeeps
  | none => exact hkeeps

end AddressMap

end ExecTruth
