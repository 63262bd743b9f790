import ExecTruth.Capture.Fault
import ExecTruth.Capture.Instruction
import ExecTruth.Stream.Emission
import ExecTruth.Stream.Sink

/-! # Legacy captures — absolute instruction starts and nothing else

    A legacy capture is its addresses one after the other, eight bytes each.
    Writing adds the load base to every offset and stops at the first that does
    not fit; reading takes any number of whole addresses in any order. -/

namespace ExecTruth.Legacy

/-- Writes the addresses of offsets loaded at `base`. -/
def emit (base : Int64) : List Int64 → Emission CaptureFault
  | [] => ⟨[], none⟩
  | o :: r =>
      match Word.checkedAdd o base with
      | none => ⟨[], some (.addressOverflow o base)⟩
      | some address =>
          let rest := emit base r
          ⟨Word.encodeOffset address ++ rest.bytes, rest.fault⟩

/-- Writes the addresses of offsets loaded at `base` onto a sink. -/
def write (pace : Pace) (base : Int64) (offsets : List Int64) : Writing CaptureFault Unit :=
  offsets.forM fun o =>
    match Word.checkedAdd o base with
    | none => throw (.addressOverflow o base)
    | some address => Writing.put pace .ofIo (Word.encodeOffset address)

/-- The addresses of bytes, eight to each; `count` of them. -/
def addresses : (count : Nat) → List UInt8 → List Int64
  | 0, _ => []
  | count + 1, bytes => Word.decodeOffset (bytes.take 8) :: addresses count (bytes.drop 8)

/-- Reads the addresses of bytes. -/
def ofBytes (bytes : List UInt8) : Except CaptureFault OffsetSet :=
  if bytes.length % 8 = 0 then .ok (.ofOffsets (addresses (bytes.length / 8) bytes))
  else .error .notEnoughBytes

/-- Reads a source to its end. -/
def parse (s : Source) : Except CaptureFault OffsetSet :=
  match s.readAll with
  | .ok bytes => ofBytes bytes
  | .error fault => .error (.ofIo fault)

end ExecTruth.Legacy
