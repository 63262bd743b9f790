import ExecTruth.Capture.Fault
import ExecTruth.Capture.Instruction
import ExecTruth.Stream.Emission
import ExecTruth.Stream.Sink

/-! # Rich captures — a binary's digest, its load base and its executed instructions

    A rich capture is stored as eight magic bytes, the version, the length of the
    digest in two bytes and the digest, the load base and the number of records in
    eight bytes each, and the records, each an offset and a length.  Writing puts
    the records in ascending order; reading takes them in any order and keeps the
    first length of an offset. -/

namespace ExecTruth

/-- What was executed of one build of a binary. -/
structure RichCapture where
  /-- Names the build of the binary. -/
  digest : String
  /-- What is added to an offset to give the address it is loaded at. -/
  base : Int64
  table : InstructionTable
  deriving DecidableEq

namespace RichCapture

/-- The bytes that a rich capture begins with. -/
def magic : List UInt8 := [0xF1, 0x06, 0x67, 0x74, 0x63, 0x61, 0x70, 0x07]

/-- The version of the layout. -/
def version : UInt8 := 1

/-- The greatest number of bytes of a digest. -/
def maxDigest : Nat := 65535

/-- The bytes of one record. -/
def encodeRecord (e : Int64 × UInt8) : List UInt8 := Word.encodeOffset e.1 ++ [e.2]

/-- The bytes of a capture whose digest is short enough. -/
def encode (c : RichCapture) : List UInt8 :=
  let digest := Text.Utf8.encode c.digest
  magic ++ version :: Word.toLittle 2 digest.length ++ digest ++ Word.encodeOffset c.base
    ++ Word.toLittle 8 c.table.size ++ c.table.entries.flatMap encodeRecord

/-- Writes a capture; one whose digest is too long writes nothing. -/
def emit (c : RichCapture) : Emission CaptureFault :=
  let size := (Text.Utf8.encode c.digest).length
  if maxDigest < size then ⟨[], some (.digestTooLong size)⟩ else ⟨c.encode, none⟩

/-- Writes a capture onto a sink, one field after the other. -/
def write (pace : Pace) (c : RichCapture) : Writing CaptureFault Unit := do
  let digest := Text.Utf8.encode c.digest
  if maxDigest < digest.length then throw (.digestTooLong digest.length)
  let put := Writing.put pace CaptureFault.ofIo
  put magic
  put [version]
  put (Word.toLittle 2 digest.length)
  put digest
  put (Word.encodeOffset c.base)
  put (Word.toLittle 8 c.table.size)
  c.table.entries.forM fun record => put (encodeRecord record)

/-- The next `n` bytes of a source. -/
def field (n : Nat) (s : Source) : Except CaptureFault (List UInt8 × Source) :=
  (s.take n).mapError .ofShortage

/-- The offset and the length of a record. -/
def decodeRecord (record : List UInt8) : Int64 × UInt8 :=
  (Word.decodeOffset (record.take 8), (record.drop 8).headD 0)

/-- Reads `count` records behind those `seen`, latest first, and makes a table of all. -/
def readRecords : (count : Nat) → (seen : List (Int64 × UInt8)) → Source →
    Except CaptureFault (InstructionTable × Source)
  | 0, seen, s => .ok (.ofListFirst seen.reverse, s)
  | count + 1, seen, s => do
      let (record, s) ← field 9 s
      readRecords count (decodeRecord record :: seen) s

/-- Reads a capture, and leaves the source behind it. -/
def parse (s : Source) : Except CaptureFault (RichCapture × Source) := do
  let (start, s) ← field 8 s
  if start ≠ magic then throw .invalidMagic
  let (v, s) ← field 1 s
  if v ≠ [version] then throw (.unsupportedVersion (v.headD 0))
  let (size, s) ← field 2 s
  let (digest, s) ← field (Word.ofLittle size) s
  let digest ← (Text.Utf8.decode digest).mapError .badDigest
  let (base, s) ← field 8 s
  let (count, s) ← field 8 s
  let (table, s) ← readRecords (Word.ofLittle count) [] s
  return (⟨digest, Word.decodeOffset base, table⟩, s)

end RichCapture

end ExecTruth
