/-! # Words as bytes — numbers in a fixed number of bytes, in either byte order

    A number is written in base 256 with a given number of places; what does not
    fit is dropped.  Reading undoes writing for the numbers that fit. -/

namespace ExecTruth.Word

/-- The lowest `width` bytes of a number, lowest first. -/
def toLittle : (width : Nat) → Nat → List UInt8
  | 0, _ => []
  | width + 1, n => UInt8.ofNat (n % 256) :: toLittle width (n / 256)

/-- The number whose bytes are given, lowest first. -/
def ofLittle : List UInt8 → Nat
  | [] => 0
  | b :: r => b.toNat + 256 * ofLittle r

/-- The lowest `width` bytes of a number, highest first. -/
def toBig (width n : Nat) : List UInt8 := (toLittle width n).reverse

/-- The number whose bytes are given, highest first. -/
def ofBig (bytes : List UInt8) : Nat := ofLittle bytes.reverse

/-- The number of values that `width` bytes have. -/
def capacity : (width : Nat) → Nat
  | 0 => 1
  | width + 1 => 256 * capacity width

/-- A number takes the bytes it is given, however great it is. -/
@[simp] theorem length_toLittle (width n : Nat) : (toLittle width n).length = width := by
  induction width generalizing n with
  | zero => rfl
  | succ width ih => simp [toLittle, ih]

/-- What does not fit in the bytes of a number is lost from its top. -/
theorem ofLittle_toLittle (width n : Nat) :
    ofLittle (toLittle width n) = n % capacity width := by
  induction width generalizing n with
  | zero => simp [toLittle, ofLittle, capacity, Nat.mod_one]
  | succ width ih =>
      have hb : (UInt8.ofNat (n % 256)).toNat = n % 256 := by simp
      rw [toLittle, ofLittle, ih, hb, capacity, Nat.mod_mul]

/-- As many bytes stand for no greater number than they can hold. -/
theorem ofLittle_lt (bytes : List UInt8) : ofLittle bytes < capacity bytes.length := by
  induction bytes with
  | nil => exact Nat.one_pos
  | cons b r ih =>
      have hb : b.toNat < 256 := b.toNat_lt
      show b.toNat + 256 * ofLittle r < 256 * capacity r.length
      omega

/-- The bytes of the number of bytes are these bytes. -/
theorem toLittle_ofLittle (bytes : List UInt8) :
    toLittle bytes.length (ofLittle bytes) = bytes := by
  induction bytes with
  | nil => rfl
  | cons b r ih =>
      have hb : b.toNat < 256 := b.toNat_lt
      have hlow : (b.toNat + 256 * ofLittle r) % 256 = b.toNat := by omega
      have hhigh : (b.toNat + 256 * ofLittle r) / 256 = ofLittle r := by omega
      rw [List.length_cons, ofLittle, toLittle, hlow, hhigh, ih, UInt8.ofNat_toNat]

end ExecTruth.Word
