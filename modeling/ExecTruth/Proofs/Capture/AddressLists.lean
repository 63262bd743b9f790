import ExecTruth.Proofs.Capture.LegacyRoundTrip
import Mathlib.Algebra.Group.Int.Defs

/-! # Address lists — what legacy captures can hold, and in which order

    Offsets are written up to the first that has no address, whatever their order is
    (`rebased_or_overflow`, `emit_of_overflow`).  Reading takes any number of whole
    addresses (`ofBytes_eq`), so bytes that are read are the encodings of the addresses in
    them (`flatMap_addresses`), and these tell the list of addresses
    (`flatMap_encodeOffset_inj`).  Writing the set that was read puts its addresses in
    ascending order, each once; so it gives the same bytes exactly if they were in that
    order before (`emit_and_parse`). -/

namespace ExecTruth.Legacy

variable {base o : Int64} {offsets front back sums : List Int64} {bytes : List UInt8} {s : Source}

/-! ## Writing -/

/-- The offset has an address: with the load base added, it is an offset again. -/
def Fits (base o : Int64) : Prop :=
  -2 ^ 63 ≤ o.toInt + base.toInt ∧ o.toInt + base.toInt < 2 ^ 63

instance (base o : Int64) : Decidable (Fits base o) := inferInstanceAs (Decidable (_ ∧ _))

/-- The sum is an offset exactly where the checked addition has a result. -/
theorem fits_iff : Fits base o ↔ ∃ a, Word.checkedAdd o base = some a := by
  have hlow : Int64.minValue.toInt = -2 ^ 63 := rfl
  have hhigh : Int64.maxValue.toInt = 2 ^ 63 - 1 := rfl
  constructor
  · rintro ⟨hle, hlt⟩
    exact ⟨_, if_pos ⟨hlow ▸ hle, by omega⟩⟩
  · rintro ⟨a, ha⟩
    rw [Fits, ← Word.checkedAdd_eq_some_iff.1 ha]
    exact ⟨Int64.le_toInt a, Int64.toInt_lt a⟩

/-- Offsets have addresses up to some place, or all of them have. -/
theorem rebased_or_overflow (base : Int64) (offsets : List Int64) :
    (∃ sums, Rebased base offsets sums)
      ∨ ∃ front o back sums, offsets = front ++ o :: back ∧ Rebased base front sums
        ∧ ¬ Fits base o := by
  -- the induction finds the first offset without an address; what is in front of it has sums
  induction offsets with
  | nil => exact Or.inl ⟨[], rfl⟩
  | cons o rest ih =>
      by_cases ho : Fits base o
      · obtain ⟨a, ha⟩ := fits_iff.1 ho
        rcases ih with ⟨sums, h⟩ | ⟨front, o', back, sums, rfl, hfront, ho'⟩
        · exact Or.inl ⟨a :: sums, rebased_cons_iff.2 ⟨ha, h⟩⟩
        · exact Or.inr ⟨o :: front, o', back, a :: sums, rfl, rebased_cons_iff.2 ⟨ha, hfront⟩, ho'⟩
      · exact Or.inr ⟨[], o, rest, [], rfl, rfl, ho⟩

/-- Where all sums are there, every offset has an address. -/
theorem Rebased.fits (h : Rebased base offsets sums) (ho : o ∈ offsets) : Fits base o := by
  have hsum : o.toInt + base.toInt ∈ sums.map Int64.toInt := by
    rw [h]
    exact List.mem_map_of_mem (f := fun o : Int64 => o.toInt + base.toInt) ho
  obtain ⟨a, -, ha⟩ := List.mem_map.1 hsum
  rw [Fits, ← ha]
  exact ⟨Int64.le_toInt a, Int64.toInt_lt a⟩

/-- All sums are there exactly where every offset has an address. -/
theorem exists_rebased_iff :
    (∃ sums, Rebased base offsets sums) ↔ ∀ o ∈ offsets, Fits base o := by
  constructor
  · rintro ⟨sums, h⟩ o ho
    exact h.fits ho
  · intro hall
    rcases rebased_or_overflow base offsets with h | ⟨front, o, back, sums, rfl, -, ho⟩
    · exact h
    · exact absurd (hall o (by simp)) ho

/-- An offset without an address ends the writing, behind the addresses in front of it. -/
theorem emit_of_overflow (hfront : Rebased base front sums) (ho : ¬ Fits base o)
    (back : List Int64) :
    emit base (front ++ o :: back)
      = ⟨sums.flatMap Word.encodeOffset, some (.addressOverflow o base)⟩ := by
  -- the offsets in front are written one by one, each with its sum
  induction front generalizing sums with
  | nil =>
      rw [List.eq_nil_of_length_eq_zero hfront.length_eq, List.nil_append, emit]
      cases ha : Word.checkedAdd o base with
      | none => rfl
      | some a => exact absurd (fits_iff.2 ⟨a, ha⟩) ho
  | cons o' rest ih =>
      cases sums with
      | nil => exact absurd hfront.length_eq (Nat.zero_ne_add_one _)
      | cons a more =>
          obtain ⟨ha, hmore⟩ := rebased_cons_iff.1 hfront
          rw [List.cons_append, emit, ha, ih hmore]
          rfl

/-- Writing fails at the first offset without an address, which the fault names. -/
theorem outcome_emit_eq_error_iff {fault : CaptureFault} :
    (emit base offsets).outcome = .error fault
      ↔ ∃ front o back sums, offsets = front ++ o :: back ∧ Rebased base front sums
        ∧ ¬ Fits base o ∧ fault = .addressOverflow o base
        ∧ (emit base offsets).bytes = sums.flatMap Word.encodeOffset := by
  constructor
  · intro hout
    rcases rebased_or_overflow base offsets with h | ⟨front, o, back, sums, rfl, hfront, ho⟩
    · exact nomatch hout.symm.trans (outcome_emit_eq_ok_iff.2 h)
    · rw [emit_of_overflow hfront ho] at hout ⊢
      exact ⟨front, o, back, sums, rfl, hfront, ho, (Except.error.inj hout).symm, rfl⟩
  · rintro ⟨front, o, back, sums, rfl, hfront, ho, rfl, -⟩
    rw [emit_of_overflow hfront ho]
    rfl

/-- With no load base, offsets are their own addresses. -/
theorem rebased_zero (offsets : List Int64) : Rebased 0 offsets offsets := by
  have hzero : (0 : Int64).toInt = 0 := rfl
  simp [Rebased, hzero]

/-! ## Reading -/

/-- The addresses at the places of a byte string that are multiples of eight. -/
def addressesIn (bytes : List UInt8) : List Int64 :=
  (List.range (bytes.length / 8)).map fun i => Word.decodeOffset ((bytes.drop (8 * i)).take 8)

/-- Read one behind the other or each at its own place, the addresses are the same. -/
theorem addresses_eq (count : Nat) (bytes : List UInt8) :
    addresses count bytes
      = (List.range count).map fun i => Word.decodeOffset ((bytes.drop (8 * i)).take 8) := by
  -- the bytes are general, as each step drops the eight that it has read
  induction count generalizing bytes with
  | zero => rfl
  | succ count ih =>
      rw [addresses, ih, List.range_succ_eq_map, List.map_cons, List.map_map]
      refine congrArg _ (List.map_congr_left fun i _ => ?_)
      rw [Function.comp_apply, List.drop_drop, Nat.succ_eq_add_one, Nat.mul_succ, Nat.add_comm 8]

/-- Whole addresses are read, and nothing else. -/
theorem ofBytes_eq (bytes : List UInt8) :
    ofBytes bytes = if 8 ∣ bytes.length then .ok (.ofOffsets (addressesIn bytes))
      else .error .notEnoughBytes := by
  rw [ofBytes, addresses_eq, addressesIn]
  exact if_congr (Nat.dvd_iff_mod_eq_zero).symm rfl rfl

/-- A stream that does not fail is read for all its bytes. -/
theorem parse_of_fault_none (h : s.fault = none) : parse s = ofBytes s.bytes := by
  have hread : s.readAll = .ok s.bytes := by
    rw [Source.readAll, h]
  rw [parse, hread]

/-- Bytes that are whole addresses are what these are written as. -/
theorem flatMap_addresses {count : Nat} (h : bytes.length = 8 * count) :
    (addresses count bytes).flatMap Word.encodeOffset = bytes := by
  induction count generalizing bytes with
  | zero => exact (List.eq_nil_of_length_eq_zero h).symm
  | succ count ih =>
      have hfirst : (bytes.take 8).length = 8 := by
        rw [List.length_take]
        omega
      have hrest : (bytes.drop 8).length = 8 * count := by
        rw [List.length_drop]
        omega
      rw [addresses, List.flatMap_cons, Word.encodeOffset_decodeOffset hfirst, ih hrest,
        List.take_append_drop]

/-- Whole addresses are the encodings of what is read of them. -/
theorem flatMap_addressesIn (h : 8 ∣ bytes.length) :
    (addressesIn bytes).flatMap Word.encodeOffset = bytes := by
  rw [addressesIn, ← addresses_eq]
  exact flatMap_addresses (Nat.mul_div_cancel' h).symm

/-- Addresses are told by their bytes. -/
theorem flatMap_encodeOffset_inj {l l' : List Int64} :
    l.flatMap Word.encodeOffset = l'.flatMap Word.encodeOffset ↔ l = l' := by
  constructor
  · intro h
    have hlength := congrArg List.length h
    rw [length_flatMap_encodeOffset, length_flatMap_encodeOffset] at hlength
    rw [← addresses_flatMap l, h, Nat.eq_of_mul_eq_mul_left (by decide) hlength,
      addresses_flatMap]
  · intro h
    rw [h]

/-! ## Both -/

/-- What is written of offsets that all have addresses reads back as the set of these. -/
theorem parse_of_rebased (hsums : Rebased base offsets sums) (hfault : s.fault = none)
    (hbytes : s.bytes = (emit base offsets).bytes) : parse s = .ok (.ofOffsets sums) := by
  rw [parse_of_fault_none hfault, hbytes, emit_of_rebased hsums]
  exact ofBytes_flatMap sums

/-- What is read is written again as a list of all its addresses. -/
theorem emit_keys (set : OffsetSet) :
    emit 0 set.keys = ⟨set.keys.flatMap Word.encodeOffset, none⟩ :=
  emit_of_rebased (rebased_zero set.keys)

/-- A set is read back from what is written of it. -/
theorem parse_of_keys {set : OffsetSet} (hfault : s.fault = none)
    (hbytes : s.bytes = (emit 0 set.keys).bytes) : parse s = .ok set := by
  rw [parse_of_rebased (rebased_zero set.keys) hfault hbytes, OffsetSet.ofOffsets_keys]

/-- **ADDRESS LISTS**.  Offsets in any order are written to the end exactly if each of them has
    an address, and what is read of that is the set of the addresses.  Otherwise the first that
    has none is named, behind the addresses of those in front of it.

    Bytes are read exactly if they are whole addresses.  The set that was read can be written
    with no load base, and is read again; so writing it once more changes nothing.  The bytes
    are then those that were read exactly if the addresses in them were strictly ascending. -/
theorem emit_and_parse (base : Int64) (offsets : List Int64) :
    ((emit base offsets).outcome = .ok () ↔ ∀ o ∈ offsets, Fits base o)
    ∧ ((emit base offsets).outcome = .ok () → ∀ s : Source, s.fault = none →
      s.bytes = (emit base offsets).bytes → ∃ set, parse s = .ok set
        ∧ ∀ a, set.contains a = true ↔ ∃ o ∈ offsets, a.toInt = o.toInt + base.toInt)
    ∧ (∀ fault, (emit base offsets).outcome = .error fault
      ↔ ∃ front o back sums, offsets = front ++ o :: back ∧ Rebased base front sums
        ∧ ¬ Fits base o ∧ fault = .addressOverflow o base
        ∧ (emit base offsets).bytes = sums.flatMap Word.encodeOffset)
    ∧ ∀ s : Source, s.fault = none →
      ((∃ set, parse s = .ok set) ↔ 8 ∣ s.bytes.length)
      ∧ (¬ 8 ∣ s.bytes.length → parse s = .error .notEnoughBytes)
      ∧ ∀ set, parse s = .ok set →
        (emit 0 set.keys).outcome = .ok ()
        ∧ (∀ t : Source, t.fault = none → t.bytes = (emit 0 set.keys).bytes → parse t = .ok set)
        ∧ ((emit 0 set.keys).bytes = s.bytes
          ↔ (addressesIn s.bytes).Pairwise fun a b => a.toInt < b.toInt) := by
  refine ⟨outcome_emit_eq_ok_iff.trans exists_rebased_iff, fun hout s hfault hbytes => ?_,
    fun fault => outcome_emit_eq_error_iff, fun s hfault => ?_⟩
  · obtain ⟨sums, hsums⟩ := outcome_emit_eq_ok_iff.1 hout
    refine ⟨_, parse_of_rebased hsums hfault hbytes, fun a => ?_⟩
    have hmem : a.toInt ∈ sums.map Int64.toInt
        ↔ a.toInt ∈ offsets.map fun o => o.toInt + base.toInt := by
      rw [hsums]
    rw [OffsetSet.contains_ofOffsets_iff]
    simpa [Int64.toInt_inj, eq_comm] using hmem
  · have hread := (parse_of_fault_none hfault).trans (ofBytes_eq s.bytes)
    by_cases hwhole : 8 ∣ s.bytes.length
    · rw [if_pos hwhole] at hread
      refine ⟨iff_of_true ⟨_, hread⟩ hwhole, fun h => absurd hwhole h, fun set hset => ?_⟩
      cases Except.ok.inj (hread.symm.trans hset)
      -- a set is listed in its order and without repetitions; so its bytes are those read, if these
      -- had neither
      have hlisted : (OffsetSet.ofOffsets (addressesIn s.bytes)).keys.flatMap Word.encodeOffset
          = (addressesIn s.bytes).flatMap Word.encodeOffset ↔ _ :=
        flatMap_encodeOffset_inj.trans OffsetSet.keys_ofOffsets_eq_iff
      rw [flatMap_addressesIn hwhole] at hlisted
      refine ⟨by rw [emit_keys]; rfl, fun t hfault' hbytes => parse_of_keys hfault' hbytes, ?_⟩
      rw [emit_keys]
      exact hlisted
    · rw [if_neg hwhole] at hread
      refine ⟨iff_of_false ?_ hwhole, fun _ => hread, fun set hset => nomatch hread.symm.trans hset⟩
      rintro ⟨set, hset⟩
      exact nomatch hread.symm.trans hset

/-- Addresses on either side of zero, out of order and one of them twice, read three bytes at a
    time: all are read, and written again the bytes are others. -/
theorem emit_and_parse_out_of_order :
    let offsets : List Int64 := [4128, -5, 4128]
    let s : Source := .cut 3 (emit (-4096) offsets).bytes none
    (∀ o ∈ offsets, Fits (-4096) o) ∧ s.fault = none ∧ s.bytes = (emit (-4096) offsets).bytes
    ∧ ∃ set, parse s = .ok set ∧ set.contains 32 = true ∧ set.contains (-4101) = true
      ∧ (emit 0 set.keys).bytes ≠ s.bytes := by
  intro offsets s
  have hpage : Fits (-4096) 4128 := by decide
  have hbelow : Fits (-4096) (-5) := by decide
  have hfits : ∀ o ∈ offsets, Fits (-4096) o := List.forall_mem_cons.2
    ⟨hpage, List.forall_mem_cons.2 ⟨hbelow, List.forall_mem_singleton.2 hpage⟩⟩
  have hbytes : s.bytes = (emit (-4096) offsets).bytes := rfl
  obtain ⟨hok, hread, -, hagain⟩ := emit_and_parse (-4096) offsets
  obtain ⟨set, hset, hmem⟩ := hread (hok.2 hfits) s rfl hbytes
  obtain ⟨-, -, hrewritten⟩ := hagain s rfl
  obtain ⟨-, -, hsame⟩ := hrewritten set hset
  refine ⟨hfits, rfl, hbytes, set, hset, (hmem 32).2 ⟨4128, by decide, by decide⟩,
    (hmem (-4101)).2 ⟨-5, by decide, by decide⟩, fun h => ?_⟩
  exact absurd (hsame.1 h) (by decide)

end ExecTruth.Legacy
