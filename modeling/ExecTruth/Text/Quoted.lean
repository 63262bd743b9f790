import ExecTruth.Text.Numeral
import ExecTruth.Text.Printable
import ExecTruth.Text.Utf8

/-! # Quoted text — text in double quotes, with nothing invisible in it

    The quote and the backslash are escaped, tab, line feed, carriage return and
    NUL have an escape of their own, and other characters that are not shown are
    written as their code point in braces.  `quotedBytes` quotes bytes that need
    not be text: bytes that belong to no character become `\xFF`.  `byteQuoted` does
    so as well, but spells ASCII as bytes are spelt, with small letters and with the
    single quote escaped. -/

namespace ExecTruth.Text

/-- A character inside double quotes. -/
def escapeChar (c : Char) : String :=
  if c = '\x00' then "\\0"
  else if c = '\t' then "\\t"
  else if c = '\r' then "\\r"
  else if c = '\n' then "\\n"
  else if c = '"' then "\\\""
  else if c = '\\' then "\\\\"
  else if isShown c then c.toString
  else "\\u\x7b" ++ hexDigits c.toNat ++ "\x7d"

/-- A text in double quotes. -/
def quoted (s : String) : String :=
  "\"" ++ String.join (s.toList.map escapeChar) ++ "\""

/-- A byte as two hexadecimal digits with capital letters. -/
def hexByteUpper (b : UInt8) : String := (hexBytes [b]).map Char.toUpper

/-- Bytes in double quotes. -/
def quotedBytes (bytes : List UInt8) : String :=
  "\"" ++ String.join ((Utf8.pieces bytes).map fun
    | .char c => escapeChar c
    | .stray bs => String.join (bs.map fun b => "\\x" ++ hexByteUpper b)) ++ "\""

/-- A byte of an ASCII character, or of no character at all. -/
def escapeByte (b : UInt8) : String :=
  if b = 9 then "\\t"
  else if b = 10 then "\\n"
  else if b = 13 then "\\r"
  else if b = 34 then "\\\""
  else if b = 39 then "\\'"
  else if b = 92 then "\\\\"
  else if 0x20 ≤ b ∧ b ≤ 0x7E then (Char.ofNat b.toNat).toString
  else "\\x" ++ hexBytes [b]

/-- A character among bytes that need not be text. -/
def escapeAmongBytes (c : Char) : String :=
  if c.toNat < 0x80 then escapeByte c.toUInt8 else escapeChar c

/-- Bytes in double quotes, with everything in ASCII that is not printable spelt out by
    its byte. -/
def byteQuoted (bytes : List UInt8) : String :=
  "\"" ++ String.join ((Utf8.pieces bytes).map fun
    | .char c => escapeAmongBytes c
    | .stray bs => String.join (bs.map escapeByte)) ++ "\""

end ExecTruth.Text
