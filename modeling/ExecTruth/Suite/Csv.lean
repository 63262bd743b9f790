import ExecTruth.Text.Utf8

/-! # CSV — records of fields separated by commas

    A field that holds a comma, a quote, a carriage return or a line feed stands in
    quotes, with its own quotes doubled.  A record ends with a line feed. -/

namespace ExecTruth.Csv

/-- Whether a character makes quotes necessary. -/
def isSpecial (c : Char) : Bool := c == ',' || c == '"' || c == '\r' || c == '\n'

/-- Characters with every quote written twice. -/
def doubled (s : List Char) : List Char :=
  s.flatMap fun c => if c = '"' then ['"', '"'] else [c]

/-- Writes a field. -/
def field (s : List Char) : List Char :=
  if s.any isSpecial then '"' :: doubled s ++ ['"'] else s

/-- Writes the fields of a record. -/
def fields : List (List Char) → List Char
  | [] => []
  | [f] => field f
  | f :: fs => field f ++ ',' :: fields fs

/-- Writes a record. -/
def record (fs : List String) : List Char := fields (fs.map String.toList) ++ ['\n']

/-- The bytes of a record. -/
def recordBytes (fs : List String) : List UInt8 := Text.Utf8.encode (String.ofList (record fs))

end ExecTruth.Csv
