import ExecTruth.Stream.Emission
import ExecTruth.Stream.Sink

/-! # Writing onto sinks — where the room ends, and not where a piece does

    Whatever the sizes of the pieces that a sink takes, it ends with the bytes that it had
    room for, and writing fails if there were more of them (`put_eq`).  So what is written
    one after the other is an emission of all of it (`put_append`), and the argument about
    where the room may end is made once for an emission (`cutAt_onto`), and not at every
    field of a format. -/

namespace ExecTruth

variable {ε : Type} {ofIo : IoFault → ε}

namespace Sink

variable {s : Sink} {bytes : List UInt8}

theorem add_nil (s : Sink) : s.add [] = s := by
  obtain ⟨taken, room⟩ := s
  cases room <;> simp [add]

/-- Bytes may be taken in two parts. -/
theorem add_append (s : Sink) (a b : List UInt8) : s.add (a ++ b) = (s.add a).add b := by
  obtain ⟨taken, room⟩ := s
  cases room <;> simp [add, Nat.sub_sub]

/-- There is room for all of the bytes. -/
def HasRoom (s : Sink) (bytes : List UInt8) : Prop := ∀ r, s.room = some r → bytes.length ≤ r

/-- A sink has room for some bytes, or its room ends among them. -/
theorem hasRoom_or_full (s : Sink) (bytes : List UInt8) :
    s.HasRoom bytes ∨ ∃ r, s.room = some r ∧ r < bytes.length := by
  cases hroom : s.room with
  | none => exact Or.inl fun r hr => nomatch hroom.symm.trans hr
  | some r =>
      by_cases h : bytes.length ≤ r
      · refine Or.inl fun r' hr' => ?_
        rw [← Option.some.inj (hroom.symm.trans hr')]
        exact h
      · exact Or.inr ⟨r, rfl, Nat.lt_of_not_le h⟩

/-- Behind bytes that there is room for, there is room for others if there is for both. -/
theorem hasRoom_append_iff {a b : List UInt8} (h : s.HasRoom a) :
    s.HasRoom (a ++ b) ↔ (s.add a).HasRoom b := by
  obtain ⟨taken, room⟩ := s
  cases room with
  | none => exact iff_of_true nofun nofun
  | some r =>
      have hr : a.length ≤ r := h r rfl
      have hleft : (a ++ b).length ≤ r ↔ b.length ≤ r - a.length := by
        rw [List.length_append]
        omega
      simpa [HasRoom, add] using hleft

/-- Of bytes that there are, none fits only where the room has ended. -/
theorem room_of_fitting_eq_zero (hne : bytes ≠ []) (hfull : s.fitting bytes = 0) :
    s.room = some 0 := by
  have hpos := List.length_pos_iff.2 hne
  cases hroom : s.room with
  | none =>
      rw [fitting, hroom] at hfull
      exact absurd hfull (Nat.ne_of_gt hpos)
  | some r =>
      rw [fitting, hroom] at hfull
      dsimp only at hfull
      exact congrArg some (by omega)

/-- It has room for as many of them as fit. -/
theorem hasRoom_take {count : Nat} (hle : count ≤ s.fitting bytes) :
    s.HasRoom (bytes.take count) := by
  intro r hroom
  rw [fitting, hroom] at hle
  dsimp only at hle
  rw [List.length_take]
  omega

end Sink

namespace Emission

variable {em : Emission ε} {s : Sink}

/-- Writes an emission onto a sink, as much of it as there is room for. -/
def onto (ofIo : IoFault → ε) (em : Emission ε) : Writing ε Unit := fun s =>
  match em.sendTo s.room ofIo with
  | (bytes, .ok ()) => .ok () (s.add bytes)
  | (bytes, .error e) => .error e (s.add bytes)

/-- Where there is room, an emission leaves all its bytes, and then its own fault. -/
theorem onto_of_hasRoom (h : s.HasRoom em.bytes) :
    em.onto ofIo s = match em.fault with
      | none => .ok () (s.add em.bytes)
      | some e => .error e (s.add em.bytes) := by
  have hsend : em.sendTo s.room ofIo = (em.bytes, em.outcome) := by
    cases hroom : s.room with
    | none => rfl
    | some r => exact if_pos (h r hroom)
  rw [onto, hsend, outcome]
  cases em.fault <;> rfl

/-- Where there is not, it leaves the bytes that fit, and its own fault is not reached. -/
theorem onto_of_full {r : Nat} (hroom : s.room = some r) (h : r < em.bytes.length) :
    em.onto ofIo s = .error (ofIo .writerStopped) (s.add (em.bytes.take r)) := by
  have hsend : em.sendTo s.room ofIo
      = (em.bytes.take r, .error (ofIo .writerStopped)) := by
    rw [hroom]
    exact if_neg (Nat.not_le.2 h)
  rw [onto, hsend]

/-- To emit nothing is to do nothing. -/
theorem onto_nothing : (⟨[], none⟩ : Emission ε).onto ofIo = pure () := by
  funext s
  rw [onto_of_hasRoom fun _ _ => Nat.zero_le _, Sink.add_nil]
  rfl

/-- To emit nothing but a fault is to fail. -/
theorem onto_fault (e : ε) : (⟨[], some e⟩ : Emission ε).onto ofIo = throw e := by
  funext s
  rw [onto_of_hasRoom fun _ _ => Nat.zero_le _, Sink.add_nil]
  rfl

/-- Bytes in front of an emission are written first, and it is written if they all are. -/
theorem onto_append (ofIo : IoFault → ε) (front : List UInt8) (em : Emission ε) :
    (⟨front ++ em.bytes, em.fault⟩ : Emission ε).onto ofIo
      = ((⟨front, none⟩ : Emission ε).onto ofIo >>= fun _ => em.onto ofIo) := by
  funext s
  show _ = EStateM.bind _ _ s
  rcases s.hasRoom_or_full front with hfront | ⟨r, hroom, hfull⟩
  · have hwritten : (⟨front, none⟩ : Emission ε).onto ofIo s = .ok () (s.add front) :=
      onto_of_hasRoom hfront
    rw [EStateM.bind, hwritten]
    dsimp only
    rcases (s.add front).hasRoom_or_full em.bytes with hback | ⟨r, hroom, hfull⟩
    · rw [onto_of_hasRoom hback, onto_of_hasRoom ((Sink.hasRoom_append_iff hfront).2 hback),
        Sink.add_append]
    · -- the room ends behind the bytes in front
      obtain ⟨r', hroom', rfl⟩ := Option.map_eq_some_iff.1 hroom
      have hle : front.length ≤ r' := hfront r' hroom'
      have hlt : r' < (front ++ em.bytes).length := by
        rw [List.length_append]
        omega
      rw [onto_of_full hroom hfull, onto_of_full hroom' hlt, ← Sink.add_append,
        List.take_append, List.take_of_length_le hle]
  · have hstopped : (⟨front, none⟩ : Emission ε).onto ofIo s
        = .error (ofIo .writerStopped) (s.add (front.take r)) := onto_of_full hroom hfull
    have hlt : r < (front ++ em.bytes).length := by
      rw [List.length_append]
      omega
    rw [EStateM.bind, hstopped, onto_of_full hroom hlt,
      List.take_append_of_le_length (Nat.le_of_lt hfull)]

end Emission

/-! ## Writing in pieces -/

namespace Writing

variable {pace : Pace} {s : Sink} {bytes : List UInt8}

/-- To put no bytes is to do nothing. -/
theorem put_nil (pace : Pace) (ofIo : IoFault → ε) : put pace ofIo [] = pure () := by
  funext s
  rw [put, if_pos rfl]
  rfl

/-- A sink that takes a piece of the bytes is offered the others. -/
theorem put_of_taken {count : Nat} (hne : bytes ≠ [])
    (hcount : pace.share s.taken.length (s.fitting bytes) = count) (hpos : 0 < count) :
    put pace ofIo bytes s = put pace ofIo (bytes.drop count) (s.add (bytes.take count)) := by
  rw [put, if_neg hne]
  dsimp only
  rw [hcount, if_neg (Nat.ne_of_gt hpos)]

/-- A full sink refuses bytes and stays as it is. -/
theorem put_of_refused (hne : bytes ≠ []) (hfull : s.fitting bytes = 0) :
    put pace ofIo bytes s = .error (ofIo .writerStopped) s := by
  have hnone : pace.share s.taken.length (s.fitting bytes) = 0 :=
    Nat.le_zero.1 (hfull ▸ pace.share_le _ _)
  rw [put, if_neg hne]
  exact if_pos hnone

/-- Bytes are written as far as there is room, in pieces of whatever size. -/
theorem put_eq (pace : Pace) (ofIo : IoFault → ε) (bytes : List UInt8) :
    put pace ofIo bytes = (⟨bytes, none⟩ : Emission ε).onto ofIo := by
  induction hlength : bytes.length using Nat.strongRecOn generalizing bytes with
  | ind n ih =>
      by_cases hne : bytes = []
      · rw [hne, put_nil, Emission.onto_nothing]
      funext s
      by_cases hfull : s.fitting bytes = 0
      · rw [put_of_refused hne hfull, Emission.onto_of_full (Sink.room_of_fitting_eq_zero hne hfull)
          (List.length_pos_iff.2 hne), List.take_zero, Sink.add_nil]
      · generalize hcount : pace.share s.taken.length (s.fitting bytes) = count
        have hpos : 0 < count := hcount ▸ pace.share_pos _ _ (Nat.pos_of_ne_zero hfull)
        have hle : count ≤ s.fitting bytes := hcount ▸ pace.share_le _ _
        have hfits : s.HasRoom (bytes.take count) := Sink.hasRoom_take hle
        -- a piece is never empty, so that fewer bytes are offered next
        have hshorter : (bytes.drop count).length < n := by
          have hlt := List.length_pos_iff.2 hne
          rw [List.length_drop]
          omega
        have hall := congrFun (Emission.onto_append ofIo (bytes.take count)
          ⟨bytes.drop count, none⟩) s
        dsimp only at hall
        rw [List.take_append_drop] at hall
        have htaken : (⟨bytes.take count, none⟩ : Emission ε).onto ofIo s
            = .ok () (s.add (bytes.take count)) := Emission.onto_of_hasRoom hfits
        rw [hall, put_of_taken hne hcount hpos, ih _ hshorter _ rfl]
        show _ = EStateM.bind _ _ s
        rw [EStateM.bind, htaken]

/-- Bytes put in front of an emission belong to it, wherever the sink gives out. -/
theorem put_append (pace : Pace) (ofIo : IoFault → ε) (front : List UInt8) (em : Emission ε) :
    (put pace ofIo front >>= fun _ => em.onto ofIo)
      = (⟨front ++ em.bytes, em.fault⟩ : Emission ε).onto ofIo := by
  rw [put_eq, Emission.onto_append]

/-- What is left in a sink of a room is what the emission leaves in that room. -/
theorem run_onto (room : Option Nat) (ofIo : IoFault → ε) (em : Emission ε) :
    (em.onto ofIo).run room = em.sendTo room ofIo := by
  have hroom : (Sink.ofRoom room).room = room := rfl
  rw [run, Emission.onto, hroom]
  obtain ⟨bytes, outcome⟩ := em.sendTo room ofIo
  cases outcome <;> rfl

/-- What is written for each element of a list is written one after the other. -/
theorem forM_put {α : Type} (pace : Pace) (ofIo : IoFault → ε) (encode : α → List UInt8)
    (l : List α) :
    (l.forM fun a => put pace ofIo (encode a))
      = (⟨l.flatMap encode, none⟩ : Emission ε).onto ofIo := by
  induction l with
  | nil => exact Emission.onto_nothing.symm
  | cons a rest ih =>
      show (put pace ofIo (encode a) >>= fun _ => rest.forM fun a => put pace ofIo (encode a)) = _
      rw [ih, put_append, List.flatMap_cons]

/-! ## Limited room -/

/-- A sink with room for `limit` bytes ends with as many of all the bytes, and the work fails for
    the sink exactly if there are more; else it ends as it does with room for all. -/
structure CutAt (limit : Nat) (ofIo : IoFault → ε) (w : Writing ε Unit) : Prop where
  written : (w.run (some limit)).1 = (w.run none).1.take (min limit (w.run none).1.length)
  stopped : (w.run (some limit)).2 = .error (ofIo .writerStopped) ↔ limit < (w.run none).1.length
  ended : (w.run none).1.length ≤ limit → (w.run (some limit)).2 = (w.run none).2

/-- An emission is cut off where the room ends, if its own fault is not that of the sink. -/
theorem cutAt_onto {em : Emission ε} (limit : Nat) (hown : em.fault ≠ some (ofIo .writerStopped)) :
    CutAt limit ofIo (em.onto ofIo) := by
  have hall : (em.onto ofIo).run none = (em.bytes, em.outcome) := run_onto none ofIo em
  -- what fits ends as without a limit, and a fault of its own is not the one of the limit
  by_cases hfits : em.bytes.length ≤ limit
  · have hrun : (em.onto ofIo).run (some limit) = (em.bytes, em.outcome) :=
      (run_onto (some limit) ofIo em).trans (if_pos hfits)
    have hout : em.outcome ≠ .error (ofIo .writerStopped) := by
      intro hout
      rw [Emission.outcome] at hout
      cases hfault : em.fault with
      | none =>
          rw [hfault] at hout
          exact nomatch hout
      | some e =>
          rw [hfault] at hout
          exact hown (hfault.trans (congrArg some (Except.error.inj hout)))
    constructor
    · rw [hrun, hall, Nat.min_eq_right hfits, List.take_length]
    · rw [hrun, hall]
      exact iff_of_false hout (Nat.not_lt.2 hfits)
    · intro _
      rw [hrun, hall]
  · have hfull : limit < em.bytes.length := Nat.lt_of_not_le hfits
    have hrun : (em.onto ofIo).run (some limit)
        = (em.bytes.take limit, .error (ofIo .writerStopped)) :=
      (run_onto (some limit) ofIo em).trans (if_neg hfits)
    constructor
    · rw [hrun, hall, Nat.min_eq_left (Nat.le_of_lt hfull)]
    · rw [hrun, hall]
      exact iff_of_true rfl hfull
    · intro h
      rw [hall] at h
      exact absurd h hfits

end Writing

end ExecTruth
