import ExecTruth.Proofs.Capture.AddressLists
import ExecTruth.Proofs.Stream.Sinks

/-! # Limited room — what is left of a capture in a writer that runs out

    Both kinds of captures are written piece by piece, and all of that is one emission
    (`RichCapture.write_eq`, `Legacy.write_eq`).  So it does not depend on the pieces where a
    writer runs out.  A digest that is too long is noticed before anything is written; an
    offset without an address is noticed behind the addresses in front of it, and only if
    there was room for these (`written_within_room`). -/

namespace ExecTruth

namespace RichCapture

/-- The fields of a capture are written as the capture is. -/
theorem write_eq (pace : Pace) (c : RichCapture) : c.write pace = c.emit.onto .ofIo := by
  by_cases hlong : maxDigest < (Text.Utf8.encode c.digest).length
  · rw [emit_of_long_digest hlong, Emission.onto_fault, write]
    exact if_pos hlong
  · have hrecords := Writing.forM_put pace CaptureFault.ofIo encodeRecord c.table.entries
    rw [emit_of_fits (Nat.not_lt.1 hlong), encode_eq_layOut, layOut_eq_fields, write]
    simp only [if_neg hlong, hrecords, Writing.put_append]
    rfl

/-- A digest that is too long is noticed whatever room there is, and nothing is written. -/
theorem run_write_of_long_digest (pace : Pace) (room : Option Nat) {c : RichCapture}
    (hlong : maxDigest < (Text.Utf8.encode c.digest).length) :
    (c.write pace).run room = ([], .error (.digestTooLong (Text.Utf8.encode c.digest).length)) := by
  rw [write_eq, emit_of_long_digest hlong, Emission.onto_fault]
  rfl

/-- With room for all of it, a capture is written to its end. -/
theorem run_write_none (pace : Pace) {c : RichCapture}
    (hfits : (Text.Utf8.encode c.digest).length ≤ maxDigest) :
    (c.write pace).run none = (c.encode, .ok ()) := by
  rw [write_eq, Writing.run_onto, emit_of_fits hfits]
  rfl

/-- Where room ends, what is written of a capture is cut there. -/
theorem cutAt_write (pace : Pace) (limit : Nat) (c : RichCapture) :
    Writing.CutAt limit .ofIo (c.write pace) := by
  rw [write_eq]
  refine Writing.cutAt_onto limit fun hfault => ?_
  exact CaptureFault.ofIo_ne_digestTooLong _ _ (emit_fault_eq_some hfault).1

/-- A capture whose digest fits ends as the room does for it. -/
theorem outcome_write (pace : Pace) (limit : Nat) {c : RichCapture}
    (hfits : (Text.Utf8.encode c.digest).length ≤ maxDigest) :
    ((c.write pace).run (some limit)).2
      = if c.encode.length ≤ limit then .ok () else .error (.io .writerStopped) := by
  have hstopped := (c.cutAt_write pace limit).stopped
  have hended := (c.cutAt_write pace limit).ended
  rw [run_write_none pace hfits] at hstopped hended
  by_cases hroom : c.encode.length ≤ limit
  · rw [if_pos hroom]
    exact hended hroom
  · rw [if_neg hroom]
    exact hstopped.2 (Nat.lt_of_not_le hroom)

end RichCapture

namespace Legacy

/-- Writing address by address writes what `emit` puts together. -/
theorem write_eq (pace : Pace) (base : Int64) (offsets : List Int64) :
    write pace base offsets = (emit base offsets).onto .ofIo := by
  -- one address at a time on both sides; an offset that has none ends both at the same place
  induction offsets with
  | nil => exact Emission.onto_nothing.symm
  | cons o rest ih =>
      show (_ >>= fun _ => write pace base rest : Writing CaptureFault Unit) = _
      dsimp only
      rw [ih, emit]
      cases Word.checkedAdd o base with
      | none => exact (Emission.onto_fault _).symm
      | some address => exact Writing.put_append pace CaptureFault.ofIo _ _

/-- Where all offsets have addresses, these are written. -/
theorem run_write_of_rebased (pace : Pace) {base : Int64} {offsets sums : List Int64}
    (h : Rebased base offsets sums) :
    (write pace base offsets).run none = (sums.flatMap Word.encodeOffset, .ok ()) := by
  rw [write_eq, Writing.run_onto, emit_of_rebased h]
  rfl

/-- The addresses in front of an offset that has none are written before it is told. -/
theorem run_write_of_overflow (pace : Pace) {base o : Int64} {front sums : List Int64}
    (hfront : Rebased base front sums) (ho : ¬ Fits base o) (back : List Int64) :
    (write pace base (front ++ o :: back)).run none
      = (sums.flatMap Word.encodeOffset, .error (.addressOverflow o base)) := by
  rw [write_eq, Writing.run_onto, emit_of_overflow hfront ho]
  rfl

/-- Where room ends, what is written of a list of addresses is cut there, whether or not they all
    exist. -/
theorem cutAt_write (pace : Pace) (limit : Nat) (base : Int64) (offsets : List Int64) :
    Writing.CutAt limit .ofIo (write pace base offsets) := by
  rw [write_eq]
  refine Writing.cutAt_onto limit fun hfault => ?_
  rcases rebased_or_overflow base offsets with ⟨sums, h⟩ | ⟨front, o, back, sums, rfl, hfront, ho⟩
  · rw [emit_of_rebased h] at hfault
    exact nomatch hfault
  · rw [emit_of_overflow hfront ho] at hfault
    exact nomatch Option.some.inj hfault

/-- A writer without limit gets the addresses of the offsets in front of the first without. -/
theorem exists_front_of_write (pace : Pace) (base : Int64) (offsets : List Int64) :
    ∃ front back sums, offsets = front ++ back ∧ Rebased base front sums
      ∧ (∀ o ∈ back.head?, ¬ Fits base o)
      ∧ ((write pace base offsets).run none).1 = sums.flatMap Word.encodeOffset := by
  rcases rebased_or_overflow base offsets with ⟨sums, h⟩ | ⟨front, o, back, sums, rfl, hfront, ho⟩
  · refine ⟨offsets, [], sums, (List.append_nil _).symm, h, nofun, ?_⟩
    rw [run_write_of_rebased pace h]
  · refine ⟨front, o :: back, sums, rfl, hfront, fun o' ho' => Option.some.inj ho' ▸ ho, ?_⟩
    rw [run_write_of_overflow pace hfront ho back]

/-- With room for all of it, the offsets are written to the end or up to one without an
    address. -/
theorem outcome_write (pace : Pace) {limit : Nat} {base : Int64} {offsets : List Int64}
    (hroom : ((write pace base offsets).run none).1.length ≤ limit) :
    (((write pace base offsets).run (some limit)).2 = .ok () ∧ ∀ o ∈ offsets, Fits base o)
      ∨ ∃ o ∈ offsets, ¬ Fits base o
        ∧ ((write pace base offsets).run (some limit)).2 = .error (.addressOverflow o base) := by
  have hended := (cutAt_write pace limit base offsets).ended hroom
  rw [hended]
  rcases rebased_or_overflow base offsets with ⟨sums, h⟩ | ⟨front, o, back, sums, rfl, hfront, ho⟩
  · rw [run_write_of_rebased pace h]
    exact Or.inl ⟨rfl, exists_rebased_iff.1 ⟨sums, h⟩⟩
  · rw [run_write_of_overflow pace hfront ho back]
    exact Or.inr ⟨o, by simp, ho, rfl⟩

end Legacy

/-- **LIMITED ROOM**.  A writer of limited room that takes its bytes in pieces of any size ends
    with as many of them as it has room for, of those that a writer without limit gets, and the
    writing fails for the writer exactly if these are more.

    A capture fails for its digest exactly if that is too long, whatever room there is, and then
    nothing is written.  Any other is written to its end if there is room for all of it, also
    where its digest or its table is empty.  Offsets are written up to the first that has no
    address, and fail for one exactly if there is one and room for the addresses in front. -/
theorem written_within_room (pace : Pace) (limit : Nat) :
    (∀ c : RichCapture,
      let size := (Text.Utf8.encode c.digest).length
      let outcome := ((c.write pace).run (some limit)).2
      Writing.CutAt limit .ofIo (c.write pace)
      ∧ ((∃ bytes, outcome = .error (.digestTooLong bytes)) ↔ RichCapture.maxDigest < size)
      ∧ (RichCapture.maxDigest < size →
        (c.write pace).run (some limit) = ([], .error (.digestTooLong size)))
      ∧ (size ≤ RichCapture.maxDigest → (c.write pace).run none = (c.encode, .ok ())
        ∧ (outcome = .ok () ↔ c.encode.length ≤ limit)))
    ∧ ∀ (base : Int64) (offsets : List Int64),
      let all := ((Legacy.write pace base offsets).run none).1
      let outcome := ((Legacy.write pace base offsets).run (some limit)).2
      Writing.CutAt limit .ofIo (Legacy.write pace base offsets)
      ∧ (∃ front back sums, offsets = front ++ back ∧ Legacy.Rebased base front sums
        ∧ (∀ o ∈ back.head?, ¬ Legacy.Fits base o) ∧ all = sums.flatMap Word.encodeOffset)
      ∧ (all.length ≤ limit →
        ((∃ o, outcome = .error (.addressOverflow o base)) ↔ ∃ o ∈ offsets, ¬ Legacy.Fits base o)
        ∧ (outcome = .ok () ↔ ∀ o ∈ offsets, Legacy.Fits base o)) := by
  refine ⟨fun c => ?_, fun base offsets => ?_⟩
  · intro size outcome
    have hcut := c.cutAt_write pace limit
    -- a digest that is too long is told in any room, since nothing is written before it
    by_cases hlong : RichCapture.maxDigest < size
    · have hrun := RichCapture.run_write_of_long_digest pace (some limit) hlong
      exact ⟨hcut, iff_of_true ⟨size, congrArg Prod.snd hrun⟩ hlong, fun _ => hrun,
        fun hfits => absurd hlong (Nat.not_lt.2 hfits)⟩
    · have hfits := Nat.not_lt.1 hlong
      have hends : outcome = if c.encode.length ≤ limit then .ok () else _ :=
        RichCapture.outcome_write pace limit hfits
      refine ⟨hcut, iff_of_false ?_ hlong, fun h => absurd h hlong,
        fun _ => ⟨RichCapture.run_write_none pace hfits, ?_⟩⟩
      · rintro ⟨bytes, hbytes⟩
        rw [hends] at hbytes
        split at hbytes <;> cases hbytes
      · by_cases hroom : c.encode.length ≤ limit
        · rw [hends, if_pos hroom]
          exact iff_of_true rfl hroom
        · rw [hends, if_neg hroom]
          exact iff_of_false nofun hroom
  · intro all outcome
    refine ⟨Legacy.cutAt_write pace limit base offsets,
      Legacy.exists_front_of_write pace base offsets, fun hroom => ?_⟩
    -- with room for all addresses the outcome is that of writing without a limit
    rcases Legacy.outcome_write pace hroom with ⟨hok, hfits⟩ | ⟨o, ho, hover, hfails⟩
    · refine ⟨iff_of_false ?_ ?_, iff_of_true hok hfits⟩
      · rintro ⟨o, hfails⟩
        exact nomatch hok.symm.trans hfails
      · rintro ⟨o, ho, hover⟩
        exact hover (hfits o ho)
    · refine ⟨iff_of_true ⟨o, hfails⟩ ⟨o, ho, hover⟩, iff_of_false ?_ ?_⟩
      · intro hok
        exact nomatch hok.symm.trans hfails
      · intro hfits
        exact hover (hfits o ho)

/-- Two addresses and an offset without one: the writer runs out within the second address, or
    the offset is noticed behind it. -/
theorem written_within_room_two_addresses :
    let w := Legacy.write .whole 1 [0, 5, Int64.maxValue]
    (w.run none).1.length = 16
    ∧ (w.run (some 12)).1 = (w.run none).1.take 12
    ∧ (w.run (some 12)).2 = .error (.io .writerStopped)
    ∧ ∃ o, (w.run (some 16)).2 = .error (.addressOverflow o 1) := by
  intro w
  have hsums : Legacy.Rebased 1 [0, 5] [1, 6] := rfl
  have hover : ¬ Legacy.Fits 1 Int64.maxValue := by decide
  have hlength : (w.run none).1.length = 16 :=
    congrArg (·.1.length) (Legacy.run_write_of_overflow .whole hsums hover [])
  obtain ⟨-, hshort⟩ := written_within_room .whole 12
  obtain ⟨-, hlong⟩ := written_within_room .whole 16
  obtain ⟨hcut, -, -⟩ := hshort 1 [0, 5, Int64.maxValue]
  obtain ⟨-, -, hends⟩ := hlong 1 [0, 5, Int64.maxValue]
  have hmem : Int64.maxValue ∈ [0, 5, Int64.maxValue] := by simp
  refine ⟨hlength, ?_, hcut.stopped.2 (hlength ▸ by decide), ?_⟩
  · rw [hcut.written, hlength]
    rfl
  · exact (hends (Nat.le_of_eq hlength)).1.2 ⟨_, hmem, hover⟩

end ExecTruth
