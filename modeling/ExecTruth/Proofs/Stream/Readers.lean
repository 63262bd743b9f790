import ExecTruth.Stream.Source

/-! # Exact readers — readers that take a given byte string and nothing behind it

    What a source hands out does not depend on how its bytes are cut, so `take` is
    determined by the bytes alone (`take_append`, `take_of_short`).

    A reader is EXACT on a byte string if it reads that string off the front of any
    source, leaves the source behind it, and fails with the shortage of every
    source that ends inside the string.  Exactness of a reader made of two follows
    from that of its parts (`Exact.bind`), so the argument about where a source may
    end is made once, and not at every field of a format. -/

namespace ExecTruth

/-! ## Sources -/

namespace Source

private theorem takeChunks_cons (n : Nat) (c : List UInt8) (cs : List (List UInt8)) :
    takeChunks n (c :: cs)
      = if (c.take n).length = n then some (c.take n, c.drop n :: cs)
        else (takeChunks (n - (c.take n).length) cs).map
          fun (more, rest) => (c.take n ++ more, rest) := rfl

/-- The first bytes of chunks are those of the chunks put together. -/
theorem takeChunks_append {front tail : List UInt8} {chunks : List (List UInt8)}
    (h : chunks.flatten = front ++ tail) :
    ∃ rest, takeChunks front.length chunks = some (front, rest) ∧ rest.flatten = tail := by
  induction chunks generalizing front with
  | nil =>
      obtain ⟨rfl, rfl⟩ := List.append_eq_nil_iff.1 h.symm
      exact ⟨[], rfl, rfl⟩
  | cons c cs ih =>
      rw [List.flatten_cons] at h
      rw [takeChunks_cons]
      -- the bytes end inside the first chunk, or take all of it and go on in the next
      by_cases hc : front.length ≤ c.length
      · obtain ⟨more, rfl⟩ : front <+: c :=
          List.prefix_of_prefix_length_le ⟨tail, h.symm⟩ ⟨cs.flatten, rfl⟩ hc
        rw [List.append_assoc] at h
        rw [List.take_left, if_pos rfl, List.drop_left]
        exact ⟨more :: cs, rfl, List.append_cancel_left h⟩
      · obtain ⟨more, rfl⟩ : c <+: front :=
          List.prefix_of_prefix_length_le ⟨cs.flatten, rfl⟩ ⟨tail, h.symm⟩ (by omega)
        rw [List.append_assoc] at h
        obtain ⟨rest, hrest, htail⟩ := ih (List.append_cancel_left h)
        have hlen : (c ++ more).length - c.length = more.length := by simp
        rw [List.take_of_length_le (by omega), if_neg (by omega), hlen, hrest]
        exact ⟨rest, rfl, htail⟩

/-- Chunks do not give more bytes than they have. -/
theorem takeChunks_eq_none {n : Nat} {chunks : List (List UInt8)}
    (h : chunks.flatten.length < n) : takeChunks n chunks = none := by
  induction chunks generalizing n with
  | nil => exact if_neg (Nat.ne_of_gt h)
  | cons c cs ih =>
      rw [List.flatten_cons, List.length_append] at h
      rw [takeChunks_cons, List.take_of_length_le (by omega), if_neg (by omega),
        ih (by omega)]
      rfl

/-- The bytes at the front are taken off, and the source is left behind them. -/
theorem take_append {s : Source} {front tail : List UInt8} (h : s.bytes = front ++ tail) :
    ∃ rest, s.take front.length = .ok (front, rest) ∧ rest.bytes = tail
      ∧ rest.fault = s.fault := by
  obtain ⟨chunks, hchunks, htail⟩ := takeChunks_append h
  refine ⟨⟨chunks, s.fault⟩, ?_, htail, rfl⟩
  rw [take, hchunks]

/-- A source that has too few bytes shows what it ends in. -/
theorem take_of_short {n : Nat} {s : Source} (h : s.bytes.length < n) :
    s.take n = .error s.shortage := by
  rw [take, takeChunks_eq_none h]

/-- Bytes that a source gives are as many as were asked for, and stood at its front. -/
theorem take_eq_ok {n : Nat} {s rest : Source} {front : List UInt8}
    (h : s.take n = .ok (front, rest)) :
    front.length = n ∧ s.bytes = front ++ rest.bytes := by
  by_cases hn : s.bytes.length < n
  · rw [take_of_short hn] at h
    exact nomatch h
  · have hlen : (s.bytes.take n).length = n := by
      rw [List.length_take]
      omega
    obtain ⟨rest', htake, hrest, -⟩ := take_append (List.take_append_drop n s.bytes).symm
    rw [hlen, h] at htake
    cases htake
    exact ⟨hlen, by rw [hrest, List.take_append_drop]⟩

/-- The shortage of a source depends on nothing but its fault. -/
theorem shortage_congr {s t : Source} (h : s.fault = t.fault) : s.shortage = t.shortage := by
  rw [shortage, shortage, h]

end Source

/-! ## Exact readers -/

/-- A reader takes bytes off a source and leaves the rest. -/
abbrev Reader (ε α : Type) : Type := Source → Except ε (α × Source)

namespace Reader

variable {ε α β : Type} {short : Source.Shortage → ε}

/-- A reader made of two gives something only if both do. -/
theorem bind_eq_ok {first : Except ε α} {next : α → Except ε β} {b : β}
    (h : first >>= next = .ok b) : ∃ a, first = .ok a ∧ next a = .ok b := by
  cases first with
  | ok a => exact ⟨a, rfl, h⟩
  | error e => exact nomatch h

/-- The reader reads `bytes` off the front of a source as `a` and leaves what is
    behind them; a source that ends inside `bytes` shows its shortage. -/
structure Exact (short : Source.Shortage → ε) (r : Reader ε α) (bytes : List UInt8)
    (a : α) : Prop where
  whole : ∀ {s : Source} {tail : List UInt8}, s.bytes = bytes ++ tail →
    ∃ rest, r s = .ok (a, rest) ∧ rest.bytes = tail ∧ rest.fault = s.fault
  cut : ∀ {s : Source}, s.bytes <+: bytes → s.bytes ≠ bytes → r s = .error (short s.shortage)

/-- Giving a value reads nothing. -/
theorem Exact.pure (a : α) : Exact short (fun s => .ok (a, s)) [] a where
  whole h := ⟨_, rfl, h, rfl⟩
  cut h hne := absurd (List.prefix_nil.1 h) hne

/-- Two exact readers, one after the other, read their bytes one after the other. -/
theorem Exact.bind {r : Reader ε α} {next : α × Source → Except ε (β × Source)}
    {bytes bytes' : List UInt8} {a : α} {b : β} (hr : Exact short r bytes a)
    (hnext : Exact short (fun s => next (a, s)) bytes' b) :
    Exact short (fun s => r s >>= next) (bytes ++ bytes') b where
  whole {s tail} h := by
    rw [List.append_assoc] at h
    obtain ⟨mid, hmid, hbytes, hfault⟩ := hr.whole h
    obtain ⟨rest, hrest, htail, hfault'⟩ := hnext.whole hbytes
    refine ⟨rest, ?_, htail, hfault'.trans hfault⟩
    show (r s >>= next) = _
    rw [hmid]
    exact hrest
  cut {s} h hne := by
    show (r s >>= next) = _
    by_cases hin : s.bytes <+: bytes ∧ s.bytes ≠ bytes
    · rw [hr.cut hin.1 hin.2]
      rfl
    · -- the source has all of `bytes`, and ends inside what follows
      obtain ⟨part, hpart⟩ : bytes <+: s.bytes := by
        rcases List.prefix_or_prefix_of_prefix h (List.prefix_append bytes bytes') with h | h
        · by_cases heq : s.bytes = bytes
          · exact ⟨[], by rw [List.append_nil, heq]⟩
          · exact absurd ⟨h, heq⟩ hin
        · exact h
      obtain ⟨mid, hmid, hbytes, hfault⟩ := hr.whole hpart.symm
      rw [← hpart] at h hne
      have hcut := hnext.cut (s := mid) (hbytes ▸ (List.prefix_append_right_inj bytes).1 h)
        fun heq => hne (by rw [← hbytes, heq])
      rw [hmid, ← Source.shortage_congr hfault]
      exact hcut

end Reader

end ExecTruth
