import ExecTruth.Text.Numeral
import ExecTruth.Word.Bytes

/-! # Offsets — signed 64-bit numbers, checked and wrapping

    File offsets, load bases and absolute addresses are signed 64-bit words.
    Where the bounds matter, sums and differences are checked against the
    integers; where they name a place in the address space, they wrap.  An offset
    is written in hexadecimal as its two's complement, and stored in eight bytes,
    lowest first. -/

namespace ExecTruth.Word

/-- The offset of an integer, if there is one. -/
def offsetOfInt? (i : Int) : Option Int64 :=
  if Int64.minValue.toInt ≤ i ∧ i ≤ Int64.maxValue.toInt then some (Int64.ofInt i) else none

/-- The sum of two offsets, unless it leaves their range. -/
def checkedAdd (a b : Int64) : Option Int64 := offsetOfInt? (a.toInt + b.toInt)

/-- The difference of two offsets, unless it leaves their range. -/
def checkedSub (a b : Int64) : Option Int64 := offsetOfInt? (a.toInt - b.toInt)

/-- The word of an offset, unless that is negative. -/
def wordOfOffset? (o : Int64) : Option UInt64 := if 0 ≤ o then some o.toUInt64 else none

/-- The sum of two words, unless it leaves their range. -/
def checkedSum (a b : UInt64) : Option UInt64 :=
  if a.toNat + b.toNat < UInt64.size then some (a + b) else none

/-- An integer is an offset if some offset has its value, and is that one. -/
theorem offsetOfInt?_eq_some_iff {i : Int} {o : Int64} :
    offsetOfInt? i = some o ↔ o.toInt = i := by
  have hlow := Int64.minValue_le_toInt o
  have hhigh := Int64.toInt_le o
  unfold offsetOfInt?
  constructor
  · intro h
    split at h
    · rename_i hin
      rw [← Option.some.inj h]
      exact Int64.toInt_ofInt_of_le hin.1 (Int.lt_of_le_of_lt hin.2 (by decide))
    · exact absurd h (by simp)
  · intro h
    rw [← h, if_pos ⟨hlow, hhigh⟩, Int64.ofInt_toInt]

/-- A checked sum is the sum of the integers. -/
theorem checkedAdd_eq_some_iff {a b c : Int64} :
    checkedAdd a b = some c ↔ c.toInt = a.toInt + b.toInt := offsetOfInt?_eq_some_iff

/-- A checked difference is the difference of the integers. -/
theorem checkedSub_eq_some_iff {a b c : Int64} :
    checkedSub a b = some c ↔ c.toInt = a.toInt - b.toInt := offsetOfInt?_eq_some_iff

theorem toNat_toUInt64 {o : Int64} (h : 0 ≤ o) : (o.toUInt64.toNat : Int) = o.toInt := by
  rw [Int64.toNat_toUInt64_of_le h, Int64.cast_toNatClampNeg o h]

/-- The word of an offset is the same number. -/
theorem wordOfOffset?_eq_some_iff {o : Int64} {w : UInt64} :
    wordOfOffset? o = some w ↔ (w.toNat : Int) = o.toInt := by
  rw [wordOfOffset?]
  constructor
  · intro h
    split at h
    · next hnonneg =>
        cases h
        exact toNat_toUInt64 hnonneg
    · cases h
  · intro h
    have hnonneg : 0 ≤ o := Int64.le_iff_toInt_le.2 (by
      rw [← h]
      exact Int.natCast_nonneg _)
    rw [if_pos hnonneg]
    have hsame : o.toUInt64.toNat = w.toNat :=
      Int.natCast_inj.1 ((toNat_toUInt64 hnonneg).trans h.symm)
    exact congrArg some (UInt64.toNat_inj.1 hsame)

/-- A checked sum is the sum of the numbers. -/
theorem checkedSum_eq_some_iff {a b c : UInt64} :
    checkedSum a b = some c ↔ c.toNat = a.toNat + b.toNat := by
  have hc : c.toNat < UInt64.size := c.toNat_lt
  have hsum : a.toNat + b.toNat < UInt64.size → (a + b).toNat = a.toNat + b.toNat :=
    fun h => (UInt64.toNat_add a b).trans (Nat.mod_eq_of_lt h)
  rw [checkedSum]
  constructor
  · intro h
    split at h
    · next hfits =>
        cases h
        exact hsum hfits
    · cases h
  · intro h
    have hfits : a.toNat + b.toNat < UInt64.size := h ▸ hc
    rw [if_pos hfits]
    exact congrArg some (UInt64.toNat_inj.1 ((hsum hfits).trans h.symm))

/-- An offset in hexadecimal, as its two's complement. -/
def hexOffset (o : Int64) : String := Text.hexWord o.toUInt64

/-- The two pieces that an offset in hexadecimal is written in. -/
def hexPieces (o : Int64) : List String := ["0x", Text.hexDigits o.toUInt64.toNat]

/-- The eight bytes of an offset. -/
def encodeOffset (o : Int64) : List UInt8 := toLittle 8 o.toUInt64.toNat

/-- The offset of eight bytes. -/
def decodeOffset (bytes : List UInt8) : Int64 := (ofLittle bytes).toUInt64.toInt64

@[simp] theorem length_encodeOffset (o : Int64) : (encodeOffset o).length = 8 :=
  length_toLittle 8 _

/-- An offset is read back from its bytes. -/
@[simp] theorem decodeOffset_encodeOffset (o : Int64) : decodeOffset (encodeOffset o) = o := by
  have hlt : o.toUInt64.toNat < capacity 8 := o.toUInt64.toNat_lt
  rw [decodeOffset, encodeOffset, ofLittle_toLittle, Nat.mod_eq_of_lt hlt]
  simp

/-- Any eight bytes are those of an offset. -/
theorem encodeOffset_decodeOffset {bytes : List UInt8} (h : bytes.length = 8) :
    encodeOffset (decodeOffset bytes) = bytes := by
  have hlt : ofLittle bytes < UInt64.size := by
    have hcapacity := ofLittle_lt bytes
    rw [h] at hcapacity
    exact hcapacity
  rw [encodeOffset, decodeOffset, UInt64.toUInt64_toInt64, UInt64.toNat_ofNat_of_lt' hlt, ← h,
    toLittle_ofLittle]

end ExecTruth.Word
