import ExecTruth.Capture.Instruction
import ExecTruth.Text.Blank
import ExecTruth.Text.Lines
import ExecTruth.Word.Offset

/-! # Listings — instruction starts read from the text of a disassembler

    A line of a listing that shows an instruction begins, behind blanks, with its
    address in hexadecimal and a colon.  Then come columns, each behind a tab: the
    bytes, and the instruction.  A line without the second column continues the
    bytes of the line above it.  Where the disassembler could not decode the bytes
    the instruction is `(bad)`. -/

namespace ExecTruth

/-- What a line of a listing shows. -/
inductive ListingLine where
  | instruction (address : Int64)
  /-- Bytes that could not be decoded. -/
  | undecoded
  | other
  deriving DecidableEq, Repr

namespace ListingLine

/-- What stands for an instruction that could not be decoded. -/
def badMark : List Char := ['(', 'b', 'a', 'd', ')']

/-- The address that a line begins with. -/
def address? (digits : List Char) : Option Int64 :=
  (Text.numeral? 16 digits).bind fun n => Word.offsetOfInt? (Int.ofNat n)

/-- Reads a line. -/
def parse (line : List Char) : ListingLine :=
  match Text.cutOnce ':' (Text.trimStart line) with
  | none => .other
  | some (digits, rest) =>
      match address? digits, (Text.cutAt '\t' rest).drop 1 with
      | some address, _bytes :: mnemonic :: _ =>
          if badMark.isPrefixOf (Text.trimStart mnemonic) then .undecoded
          else .instruction address
      | _, _ => .other

/-- The address of a line that shows an instruction. -/
def start? : ListingLine → Option Int64
  | .instruction address => some address
  | .undecoded | .other => none

end ListingLine

/-- What a listing shows. -/
structure Listing where
  starts : OffsetSet
  /-- The number of lines whose bytes could not be decoded. -/
  undecoded : Nat
  deriving DecidableEq

/-- Reads a listing. -/
def Listing.ofText (text : String) : Listing :=
  let lines := (Text.lines text.toList).map ListingLine.parse
  ⟨.ofOffsets (lines.filterMap ListingLine.start?), lines.count .undecoded⟩

end ExecTruth
