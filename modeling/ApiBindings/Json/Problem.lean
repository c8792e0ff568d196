import ApiBindings.Text.Basic

/-!
What is wrong with a JSON text, and where.
-/

namespace ApiBindings.Json

inductive Complaint where
  | valueExpected
  | nameExpected
  | colonExpected
  | commaExpected
  | unterminatedString
  | controlCharacter
  | unknownEscape
  | malformedUnicodeEscape
  | trailingText
  | byteOrderMark
deriving DecidableEq

def Complaint.text : Complaint → String
  | .valueExpected => "Expecting value"
  | .nameExpected => "Expecting property name enclosed in double quotes"
  | .colonExpected => "Expecting ':' delimiter"
  | .commaExpected => "Expecting ',' delimiter"
  | .unterminatedString => "Unterminated string starting at"
  | .controlCharacter => "Invalid control character at"
  | .unknownEscape => "Invalid \\escape"
  | .malformedUnicodeEscape => "Invalid \\uXXXX escape"
  | .trailingText => "Extra data"
  | .byteOrderMark => "Unexpected UTF-8 BOM (decode using utf-8-sig)"

inductive Problem where
  /-- A complaint about the place that has `left` characters from it to the end of the text. -/
  | malformed (complaint : Complaint) (left : Nat)
  | hugeInteger
deriving DecidableEq

/-- A complaint with line, column and offset of its place, lines and columns counted from one. -/
def Complaint.report (c : Complaint) (doc : List Char) (left : Nat) : String :=
  let offset := doc.length - left
  let before := doc.take offset
  let line := before.count '\n' + 1
  let column := (before.reverse.takeWhile (· != '\n')).length + 1
  c.text ++ ": line " ++ Text.ofNat line ++ " column " ++ Text.ofNat column
    ++ " (char " ++ Text.ofNat offset ++ ")"

end ApiBindings.Json
