import ExecTruth.Explained
import ExecTruth.Text.Numeral

/-! # Looks — a file that is seen only through parts of it

    Whoever looks at a file knows its length, and the bytes of the parts that were looked
    at.  What is looked at next may depend on these, and so may what is wrong with them. -/

namespace ExecTruth.Elf

/-- What is wrong with the headers of a file. -/
inductive HeaderFault where
  /-- There is no room for the identification. -/
  | tooSmall
  /-- The file begins with other bytes, the first eight of which make this word. -/
  | badMagic (word : Nat)
  /-- The word width is unknown. -/
  | badClass (byte : UInt8)
  /-- The byte order is unknown. -/
  | badByteOrder (byte : UInt8)
  /-- A field has more bytes than are left. -/
  | cutField (size left : Nat)
  /-- The section table would begin behind the end of the file. -/
  | badOffset (offset : Nat)
  /-- The file has no room for so many section headers. -/
  | tooManySections (count : Nat)
  deriving DecidableEq, Repr

/-- The wording of a header fault. -/
def HeaderFault.message : HeaderFault → String
  | .tooSmall => "Malformed entity: Too small"
  | .badMagic word => "Invalid magic number: 0x" ++ Text.hexDigits word
  | .badClass byte => "Malformed entity: invalid ELF class " ++ Text.hexDigits byte.toNat
  | .badByteOrder byte =>
      "Malformed entity: invalid ELF endianness DATA type " ++ Text.hexDigits byte.toNat
  | .cutField size left => s!"type is too big ({size}) for {left}"
  | .badOffset offset => s!"bad offset {offset}"
  | .tooManySections count => s!"Buffer is too short for {count} section headers"

instance : Explained HeaderFault where
  message := HeaderFault.message
  causes
    -- A field that cannot be read is explained by the reader of fields, in its own words.
    | .cutField size left => [(HeaderFault.cutField size left).message]
    | .badOffset offset => [(HeaderFault.badOffset offset).message]
    | _ => []

/-- A part of a file. -/
structure Span where
  start : Nat
  size : Nat
  deriving DecidableEq, Repr

/-- The bytes of a part, as far as the file has them. -/
def Span.bytesOf (span : Span) (file : List UInt8) : List UInt8 :=
  (file.drop span.start).take span.size

/-- What is done with a file that is seen only through looks at parts of it. -/
inductive Looking (α : Type) where
  | done (a : α)
  | fail (fault : HeaderFault)
  /-- Looks at a part, and goes on with its bytes. -/
  | look (span : Span) (next : List UInt8 → Looking α)

namespace Looking

variable {α β : Type}

/-- One behind the other. -/
def bind : Looking α → (α → Looking β) → Looking β
  | done a, next => next a
  | fail fault, _ => fail fault
  | look span after, next => look span fun bytes => (after bytes).bind next

instance : Monad Looking where
  pure := done
  bind := bind

/-- What has come out already. -/
def ofExcept : Except HeaderFault α → Looking α
  | .ok a => done a
  | .error fault => fail fault

/-- What comes of it for a file. -/
def run (file : List UInt8) : Looking α → Except HeaderFault α
  | done a => .ok a
  | fail fault => .error fault
  | look span next => (next (span.bytesOf file)).run file

end Looking

end ExecTruth.Elf
