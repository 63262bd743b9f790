/-! # Numerals — numbers read from and written as digits

    A numeral is one digit or more.  Where a sign is admitted it is a single
    plus in front.  Words are written in hexadecimal with small letters, without
    leading zeros, behind `0x`. -/

namespace ExecTruth.Text

/-- The value of an ASCII digit or letter as a digit. -/
def digitValue? (c : Char) : Option Nat :=
  if '0' ≤ c && c ≤ '9' then some (c.toNat - '0'.toNat)
  else if 'a' ≤ c && c ≤ 'f' then some (c.toNat - 'a'.toNat + 10)
  else if 'A' ≤ c && c ≤ 'F' then some (c.toNat - 'A'.toNat + 10)
  else none

/-- The value of a digit of base `radix`. -/
def digit? (radix : Nat) (c : Char) : Option Nat :=
  (digitValue? c).filter (· < radix)

/-- The value of digits read after others of value `high`. -/
def digitsValue? (radix : Nat) (high : Nat) : List Char → Option Nat
  | [] => some high
  | c :: r => (digit? radix c).bind fun d => digitsValue? radix (high * radix + d) r

/-- The value of a numeral. -/
def numeral? (radix : Nat) : List Char → Option Nat
  | [] => none
  | c :: r => digitsValue? radix 0 (c :: r)

/-- The value of a numeral, behind a plus or not, if a word can hold it. -/
def word? (radix : Nat) (s : List Char) : Option UInt64 :=
  let digits := match s with
    | '+' :: r => r
    | _ => s
  (numeral? radix digits).bind fun n => if n < UInt64.size then some n.toUInt64 else none

/-- The hexadecimal digits of a number, without leading zeros. -/
def hexDigits (n : Nat) : String := String.ofList (Nat.toDigits 16 n)

/-- A word in hexadecimal. -/
def hexWord (w : UInt64) : String := "0x" ++ hexDigits w.toNat

/-- The hexadecimal digit of a number below sixteen. -/
def hexDigitChar (n : Nat) : Char :=
  if n < 10 then Char.ofNat ('0'.toNat + n) else Char.ofNat ('a'.toNat + n - 10)

/-- Bytes as two hexadecimal digits each. -/
def hexBytes (bytes : List UInt8) : String :=
  String.ofList (bytes.flatMap fun b =>
    [hexDigitChar (b.toNat / 16), hexDigitChar (b.toNat % 16)])

end ExecTruth.Text
