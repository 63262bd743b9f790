import ExecTruth.Proofs.AddressSpace.Descriptions
import ExecTruth.Proofs.SortedMap

/-! # Looking up an address — the map of a file against the lines of its description

    The map of a file keeps, of the ranges of its lines, the last one for every first
    address, and looks an address up in the range that begins next below it.  So one line
    decides on an address, the last of those that begin nearest below it (`Decides`), and
    the address has an offset if it lies in the range of that line (`resolve_of_decides`).

    If no two ranges of the file share an address, the line that decides is the only one
    that an address can lie in, so that looking it up is going through all lines
    (`resolve_of_description`). -/

namespace ExecTruth

theorem rank_le_rank_iff {a b : UInt64} : rank a ≤ rank b ↔ a ≤ b :=
  Int.ofNat_le.trans UInt64.le_iff_toNat_le.symm

namespace MappedRange

variable {r q : MappedRange} {vaddr : UInt64}

/-- The ranges have no address in common. -/
def Apart (r q : MappedRange) : Prop :=
  ∀ vaddr, ¬ (r.contains vaddr = true ∧ q.contains vaddr = true)

/-- An address lies in a range from its start on and in front of its stop. -/
theorem contains_iff : r.contains vaddr = true ↔ r.start ≤ vaddr ∧ vaddr < r.stop := by
  rw [contains, Bool.and_eq_true, decide_eq_true_eq, decide_eq_true_eq]

theorem Apart.symm (h : r.Apart q) : q.Apart r := fun vaddr hand => h vaddr ⟨hand.2, hand.1⟩

/-- Ranges one behind the other are apart. -/
theorem apart_of_le (h : r.stop ≤ q.start) : r.Apart q := by
  rintro vaddr ⟨hr, hq⟩
  have hlt : vaddr < q.start := UInt64.lt_of_lt_of_le (contains_iff.1 hr).2 h
  exact UInt64.not_le.2 hlt (contains_iff.1 hq).1

/-- A range that is not empty begins behind no place of a range that it is apart from. -/
theorem Apart.start_lt (h : r.Apart q) (hq : q.start < q.stop) (hr : r.contains vaddr = true)
    (hle : q.start ≤ vaddr) : q.start < r.start := by
  refine UInt64.not_le.1 fun hbehind => ?_
  have hlt : q.start < r.stop := UInt64.lt_of_le_of_lt hle (contains_iff.1 hr).2
  exact h q.start ⟨contains_iff.2 ⟨hbehind, hlt⟩, contains_iff.2 ⟨UInt64.le_refl _, hq⟩⟩

theorem offsetAt_of_contains (h : r.contains vaddr = true) :
    r.offsetAt vaddr = some (vaddr - r.start + r.offset) := if_pos h

theorem offsetAt_of_not_contains (h : ¬ r.contains vaddr = true) : r.offsetAt vaddr = none :=
  if_neg h

/-- Where the offset of an address of the range fits in a word, it is that of the integers. -/
theorem toNat_offset_of_fits (h : r.contains vaddr = true)
    (hfits : vaddr.toNat - r.start.toNat + r.offset.toNat < UInt64.size) :
    (vaddr - r.start + r.offset).toNat = vaddr.toNat - r.start.toNat + r.offset.toNat := by
  have hsub : (vaddr - r.start).toNat = vaddr.toNat - r.start.toNat :=
    UInt64.toNat_sub_of_le _ _ (contains_iff.1 h).1
  rw [UInt64.toNat_add, hsub]
  exact Nat.mod_eq_of_lt hfits

end MappedRange

namespace AddressMap

variable {ranges : List MappedRange} {r : MappedRange} {vaddr : UInt64}

/-- Of ranges in the order of their lines, the one that decides on an address: it begins at
    or below the address, and no other one begins nearer, or at the same place on a later
    line. -/
def Decides (ranges : List MappedRange) (vaddr : UInt64) (r : MappedRange) : Prop :=
  ∃ front back, ranges = front ++ r :: back ∧ r.start ≤ vaddr
    ∧ (∀ q ∈ front, q.start ≤ vaddr → q.start ≤ r.start)
    ∧ ∀ q ∈ back, q.start ≤ vaddr → q.start < r.start

theorem Decides.mem (h : Decides ranges vaddr r) : r ∈ ranges := by
  obtain ⟨front, back, rfl, -⟩ := h
  simp

/-- No range that begins at or below the address begins above the one that decides. -/
theorem Decides.le (h : Decides ranges vaddr r) {q : MappedRange} (hq : q ∈ ranges)
    (hle : q.start ≤ vaddr) : q.start ≤ r.start := by
  obtain ⟨front, back, rfl, -, hfront, hback⟩ := h
  rcases List.mem_append.1 hq with hq | hq
  · exact hfront q hq hle
  · rcases List.mem_cons.1 hq with rfl | hq
    · exact UInt64.le_refl _
    · exact UInt64.le_of_lt (hback q hq hle)

/-! ## What the map keeps -/

/-- The map keeps the last range for each first address. -/
theorem mem_entries_ofRanges_iff {start : UInt64} :
    (start, r) ∈ (ofRanges ranges).ranges.entries
      ↔ ∃ front back, ranges = front ++ r :: back ∧ r.start = start
        ∧ ∀ q ∈ back, q.start ≠ start := by
  rw [← SortedMap.find?_eq_some_iff, ofRanges, SortedMap.find?_ofList_eq_some_iff]
  constructor
  · rintro ⟨front, back, hmap, hback⟩
    -- a cut of the keyed ranges is one of the ranges
    obtain ⟨front', behind, rfl, rfl, hbehind⟩ := List.map_eq_append_iff.1 hmap
    obtain ⟨r', back', rfl, hr, rfl⟩ := List.map_eq_cons_iff.1 hbehind
    cases hr
    exact ⟨front', back', rfl, rfl, fun q hq => hback _ (List.mem_map_of_mem hq)⟩
  · rintro ⟨front, back, rfl, rfl, hback⟩
    refine ⟨front.map fun q => (q.start, q), back.map fun q => (q.start, q),
      by rw [List.map_append, List.map_cons], fun e he => ?_⟩
    obtain ⟨q, hq, rfl⟩ := List.mem_map.1 he
    exact hback q hq

/-- Every range has its first address in the map, if only for a later range. -/
theorem exists_mem_entries_ofRanges (hr : r ∈ ranges) :
    ∃ q, (r.start, q) ∈ (ofRanges ranges).ranges.entries := by
  have hcontains : (ofRanges ranges).ranges.contains r.start = true := by
    rw [ofRanges, SortedMap.contains_ofList_iff, List.map_map]
    exact List.mem_map_of_mem (f := fun q : MappedRange => q.start) hr
  obtain ⟨q, hq⟩ := Option.isSome_iff_exists.1 hcontains
  exact ⟨q, SortedMap.find?_eq_some_iff.1 hq⟩

/-- What the map finds for an address is the range that decides on it. -/
theorem atOrBelow?_ofRanges_eq_some_iff :
    ((ofRanges ranges).ranges.atOrBelow? vaddr).map (·.2) = some r ↔ Decides ranges vaddr r := by
  rw [Option.map_eq_some_iff]
  constructor
  · rintro ⟨⟨start, r⟩, hfound, rfl⟩
    obtain ⟨hmem, hle, hgreatest⟩ := SortedMap.atOrBelow?_eq_some_iff.1 hfound
    obtain ⟨front, back, hranges, rfl, hback⟩ := mem_entries_ofRanges_iff.1 hmem
    have hnearest : ∀ q ∈ ranges, q.start ≤ vaddr → q.start ≤ r.start := by
      intro q hq hqle
      obtain ⟨q', hq'⟩ := exists_mem_entries_ofRanges hq
      exact rank_le_rank_iff.1 (hgreatest _ hq' (rank_le_rank_iff.2 hqle))
    refine ⟨front, back, hranges, rank_le_rank_iff.1 hle, fun q hq => ?_, fun q hq hqle => ?_⟩
    · exact hnearest q (hranges ▸ List.mem_append_left _ hq)
    · have hqmem : q ∈ ranges := hranges ▸ List.mem_append_right _ (List.mem_cons_of_mem _ hq)
      exact UInt64.lt_of_le_of_ne (hnearest q hqmem hqle) (hback q hq)
  · intro hdecides
    obtain ⟨front, back, hranges, hle, -, hback⟩ := id hdecides
    refine ⟨(r.start, r), SortedMap.atOrBelow?_eq_some_iff.2
      ⟨mem_entries_ofRanges_iff.2 ⟨front, back, hranges, rfl, fun q hq heq => ?_⟩,
        rank_le_rank_iff.2 hle, fun e he hele => ?_⟩, rfl⟩
    · -- a later range that begins there would decide
      have hlt := hback q hq (heq ▸ hle)
      rw [heq] at hlt
      exact UInt64.lt_irrefl _ hlt
    · obtain ⟨front', back', hranges', hstart, -⟩ := mem_entries_ofRanges_iff.1 he
      have hemem : e.2 ∈ ranges := hranges' ▸ List.mem_append_right _ List.mem_cons_self
      rw [← hstart] at hele ⊢
      exact rank_le_rank_iff.2 (hdecides.le hemem (rank_le_rank_iff.1 hele))

/-- An address is looked up in the range that is found next below it. -/
theorem resolve_ofRanges (ranges : List MappedRange) (vaddr : UInt64) :
    (ofRanges ranges).resolve vaddr
      = (((ofRanges ranges).ranges.atOrBelow? vaddr).map (·.2)).bind (·.offsetAt vaddr) := by
  rw [resolve]
  cases (ofRanges ranges).ranges.atOrBelow? vaddr <;> rfl

/-- The range that decides on an address tells its offset, or that it has none. -/
theorem resolve_of_decides (h : Decides ranges vaddr r) :
    (ofRanges ranges).resolve vaddr = r.offsetAt vaddr := by
  rw [resolve_ofRanges, atOrBelow?_ofRanges_eq_some_iff.2 h]
  rfl

/-- A range decides on an address if any begins at or below it. -/
theorem exists_decides_iff :
    (∃ r, Decides ranges vaddr r) ↔ ∃ r ∈ ranges, r.start ≤ vaddr := by
  constructor
  · rintro ⟨r, hdecides⟩
    obtain ⟨-, -, -, hle, -⟩ := id hdecides
    exact ⟨r, hdecides.mem, hle⟩
  · rintro ⟨r, hr, hle⟩
    cases hfound : (ofRanges ranges).ranges.atOrBelow? vaddr with
    | none =>
        obtain ⟨q, hq⟩ := exists_mem_entries_ofRanges hr
        exact absurd (rank_le_rank_iff.2 hle) (SortedMap.atOrBelow?_eq_none_iff.1 hfound _ hq)
    | some e => exact ⟨e.2, atOrBelow?_ofRanges_eq_some_iff.1 (congrArg (Option.map _) hfound)⟩

/-- An address outside all ranges has no offset. -/
theorem resolve_of_not_contains (h : ∀ r ∈ ranges, ¬ r.contains vaddr = true) :
    (ofRanges ranges).resolve vaddr = none := by
  by_cases hdecides : ∃ r, Decides ranges vaddr r
  · obtain ⟨r, hr⟩ := hdecides
    rw [resolve_of_decides hr, MappedRange.offsetAt_of_not_contains (h r hr.mem)]
  · rw [resolve_ofRanges, Option.eq_none_iff_forall_ne_some.2 fun r hr =>
      hdecides ⟨r, atOrBelow?_ofRanges_eq_some_iff.1 hr⟩]
    rfl

/-- An offset that is told is that of the range that the address lies in. -/
theorem mem_of_resolve {o : UInt64} (h : (ofRanges ranges).resolve vaddr = some o) :
    ∃ r ∈ ranges, r.contains vaddr = true ∧ vaddr - r.start + r.offset = o := by
  rw [resolve_ofRanges] at h
  obtain ⟨r, hfound, hoffset⟩ := Option.bind_eq_some_iff.1 h
  have hdecides : Decides ranges vaddr r := atOrBelow?_ofRanges_eq_some_iff.1 hfound
  by_cases hcontains : r.contains vaddr = true
  · rw [MappedRange.offsetAt_of_contains hcontains] at hoffset
    exact ⟨r, hdecides.mem, hcontains, Option.some.inj hoffset⟩
  · rw [MappedRange.offsetAt_of_not_contains hcontains] at hoffset
    exact nomatch hoffset

/-! ## Ranges apart -/

section Apart

variable (hfull : ∀ r ∈ ranges, r.start < r.stop) (hapart : ranges.Pairwise MappedRange.Apart)

include hfull hapart

/-- Of ranges that are apart, the one that an address lies in decides on it. -/
theorem decides_of_contains (hr : r ∈ ranges) (hcontains : r.contains vaddr = true) :
    Decides ranges vaddr r := by
  obtain ⟨front, back, rfl⟩ := List.append_of_mem hr
  obtain ⟨-, hbehind, hbefore⟩ := List.pairwise_append.1 hapart
  refine ⟨front, back, rfl, (MappedRange.contains_iff.1 hcontains).1, fun q hq hle => ?_,
    fun q hq hle => ?_⟩
  -- whatever else begins below the address begins below the whole range
  · have hqr : r.Apart q := (hbefore q hq r List.mem_cons_self).symm
    exact UInt64.le_of_lt (hqr.start_lt (hfull q (List.mem_append_left _ hq)) hcontains hle)
  · have hrq : r.Apart q := (List.pairwise_cons.1 hbehind).1 q hq
    have hqmem : q ∈ front ++ r :: back := List.mem_append_right _ (List.mem_cons_of_mem _ hq)
    exact hrq.start_lt (hfull q hqmem) hcontains hle

/-- An address lies in one range only. -/
theorem eq_of_contains {q : MappedRange} (hr : r ∈ ranges) (hcontains : r.contains vaddr = true)
    (hq : q ∈ ranges) (hcontains' : q.contains vaddr = true) : q = r := by
  have hfound := atOrBelow?_ofRanges_eq_some_iff.2 (decides_of_contains hfull hapart hr hcontains)
  have hfound' := atOrBelow?_ofRanges_eq_some_iff.2 (decides_of_contains hfull hapart hq hcontains')
  exact Option.some.inj (hfound'.symm.trans hfound)

/-- Each range is kept for its first address. -/
theorem find?_ofRanges (hr : r ∈ ranges) : (ofRanges ranges).ranges.find? r.start = some r := by
  -- the first address of a range that is not empty lies in it
  have hstart : r.contains r.start = true :=
    MappedRange.contains_iff.2 ⟨UInt64.le_refl _, hfull r hr⟩
  obtain ⟨front, back, hranges, -, -, hback⟩ := decides_of_contains hfull hapart hr hstart
  rw [SortedMap.find?_eq_some_iff, mem_entries_ofRanges_iff]
  refine ⟨front, back, hranges, rfl, fun q hq heq => ?_⟩
  have hlt := hback q hq (heq ▸ UInt64.le_refl _)
  rw [heq] at hlt
  exact UInt64.lt_irrefl _ hlt

/-- So the map keeps as many as there are. -/
theorem size_ofRanges : (ofRanges ranges).size = ranges.length := by
  have hnodup : ((ranges.map fun r => (r.start, r)).map (·.1)).Nodup := by
    rw [List.map_map]
    refine List.pairwise_map.2 (hapart.imp_of_mem fun {r q} hr hq h heq => ?_)
    have hstart : r.contains r.start = true :=
      MappedRange.contains_iff.2 ⟨UInt64.le_refl _, hfull r hr⟩
    have hsame : r.start = q.start := heq
    have hlt : q.start < r.start := h.start_lt (hfull q hq) hstart (UInt64.le_of_eq hsame.symm)
    rw [hsame] at hlt
    exact UInt64.lt_irrefl _ hlt
  exact (SortedMap.size_ofList hnodup).trans (List.length_map _)

end Apart

/-- **LOOK-UP**.  A description is rejected if any of its lines is, and for the first of
    them.  Otherwise the last line of those that begin nearest below an address decides on
    it.  If the ranges of the target are not empty and share no address, the map keeps one
    for each line, and an address has the offset that the only line with it gives, or none
    if there is no such line. -/
theorem resolve_of_description (text : String) {target : Path} {id : NameId} {pool : NamePool}
    (htarget : pool.find? target = some id) :
    let answer := (ofText text (some id) pool).1
    let ranges := Mapping.rangesOf target text
    (∀ fault, answer = .error fault
      ↔ Mapping.FirstRejected 1 (Text.lines text.toList) fault)
    ∧ ((∃ fault, answer = .error fault)
      ↔ ∃ line ∈ Text.lines text.toList, Mapping.Rejected line)
    ∧ ∀ m, answer = .ok m →
      ((∀ r ∈ ranges, r.start < r.stop) → ranges.Pairwise MappedRange.Apart →
        m.size = ranges.length ∧ (∀ r ∈ ranges, m.ranges.find? r.start = some r)
        ∧ ∀ vaddr,
          (∀ r ∈ ranges, r.contains vaddr = true →
            (∀ q ∈ ranges, q.contains vaddr = true → q = r)
            ∧ (vaddr.toNat - r.start.toNat + r.offset.toNat < UInt64.size →
              ∃ o, m.resolve vaddr = some o
                ∧ o.toNat = vaddr.toNat - r.start.toNat + r.offset.toNat))
          ∧ ((∀ r ∈ ranges, ¬ r.contains vaddr = true) → m.resolve vaddr = none))
      ∧ ∀ vaddr, (∀ r, Decides ranges vaddr r → m.resolve vaddr = r.offsetAt vaddr)
        ∧ ((∃ r, Decides ranges vaddr r) ↔ ∃ r ∈ ranges, r.start ≤ vaddr)
        ∧ ((∀ r ∈ ranges, ¬ r.start ≤ vaddr) → m.resolve vaddr = none) := by
  intro answer ranges
  have hanswer : answer = ofDescription target text := ofText_eq htarget
  have hfault : ∀ fault, answer = .error fault
      ↔ Mapping.FirstRejected 1 (Text.lines text.toList) fault := by
    intro fault
    rw [hanswer]
    exact ofDescription_eq_error_iff
  refine ⟨hfault, ?_, fun m hm => ?_⟩
  · rw [exists_congr hfault]
    exact Mapping.exists_firstRejected_iff
  · rw [hanswer] at hm
    obtain ⟨-, rfl⟩ := ofDescription_eq_ok_iff.1 hm
    refine ⟨fun hfull hapart => ?_, fun vaddr => ?_⟩
    · refine ⟨size_ofRanges hfull hapart, fun r => find?_ofRanges hfull hapart,
        fun vaddr => ⟨fun r hr hcontains => ?_, resolve_of_not_contains⟩⟩
      refine ⟨fun q => eq_of_contains hfull hapart hr hcontains, fun hfits => ?_⟩
      refine ⟨_, ?_, MappedRange.toNat_offset_of_fits hcontains hfits⟩
      -- among ranges that lie apart, the one with the address decides about it
      rw [resolve_of_decides (decides_of_contains hfull hapart hr hcontains),
        MappedRange.offsetAt_of_contains hcontains]
    · refine ⟨fun r => resolve_of_decides, exists_decides_iff, fun hnone => ?_⟩
      refine resolve_of_not_contains fun r hr hcontains => ?_
      exact hnone r hr (MappedRange.contains_iff.1 hcontains).1

/-- Two lines of the file, the upper one first, that meet at an address. -/
def meetingLines : String :=
  "2000-3000 r-xp 1500 08:01 7 /bin//a\n\n400-500 rw-p 0 00:00 0 [heap]\n"
    ++ "1000-2000 r--p 500 08:01 7 /bin/./a\n"

/-- The two ranges of the file meet: the last address of the lower one and the first of the upper
    one have each their own range's offset, and behind both there is no offset. -/
theorem resolve_of_description_meeting_lines :
    let pool := (NamePool.empty.intern (.ofString "/bin/a")).2
    pool.find? (.ofString "/bin/a") = some 0
      ∧ ∃ m, (ofText meetingLines (some 0) pool).1 = .ok m ∧ m.size = 2
        ∧ m.resolve 0x1fff = some 0x14ff ∧ m.resolve 0x2000 = some 0x1500
        ∧ m.resolve 0x3000 = none := by
  intro pool
  have hname : pool.find? (.ofString "/bin/a") = some 0 := rfl
  have hranges : Mapping.rangesOf (.ofString "/bin/a") meetingLines
      = [⟨0x2000, 0x3000, 0x1500⟩, ⟨0x1000, 0x2000, 0x500⟩] := rfl
  have hanswer : (ofText meetingLines (some 0) pool).1
      = .ok (ofRanges (Mapping.rangesOf (.ofString "/bin/a") meetingLines)) := by
    rw [ofText_eq hname]
    exact ofDescription_eq_ok_iff.2 ⟨rfl, rfl⟩
  obtain ⟨-, -, hmap⟩ := resolve_of_description meetingLines hname
  have hlookUp := (hmap _ hanswer).1
  rw [hranges] at hanswer hlookUp
  have hlower : MappedRange.Apart ⟨0x1000, 0x2000, 0x500⟩ ⟨0x2000, 0x3000, 0x1500⟩ :=
    MappedRange.apart_of_le (by decide)
  obtain ⟨hsize, -, hresolve⟩ := hlookUp (by decide) (List.pairwise_pair.2 hlower.symm)
  refine ⟨hname, _, hanswer, hsize, ?_, ?_, (hresolve 0x3000).2 (by decide)⟩
  · obtain ⟨o, ho, hoffset⟩ := ((hresolve 0x1fff).1 ⟨0x1000, 0x2000, 0x500⟩ (by decide)
      (by decide)).2 (by decide)
    rw [ho, UInt64.toNat_inj.1 (hoffset.trans (by decide : _ = (0x14ff : UInt64).toNat))]
  · obtain ⟨o, ho, hoffset⟩ := ((hresolve 0x2000).1 ⟨0x2000, 0x3000, 0x1500⟩ (by decide)
      (by decide)).2 (by decide)
    rw [ho, UInt64.toNat_inj.1 (hoffset.trans (by decide : _ = (0x1500 : UInt64).toNat))]

end AddressMap

end ExecTruth
