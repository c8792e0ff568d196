import ApiBindings.Text.Printable
import ApiBindings.Text.Surrogate

/-!
The literal form of texts and bytes inside messages and enumerations: between single quotes,
unless the text holds a single quote and no double one.
-/

namespace ApiBindings.Text

def literalChar (q : Char) (c : Char) : List Char :=
  if c = q ∨ c = '\\' then ['\\', c]
  else if c = '\n' then ['\\', 'n']
  else if c = '\r' then ['\\', 'r']
  else if c = '\t' then ['\\', 't']
  else if isPrintable c then [c]
  else if codePoint c < 0x100 then '\\' :: 'x' :: hexDigits 2 (codePoint c)
  else if codePoint c < 0x10000 then '\\' :: 'u' :: hexDigits 4 (codePoint c)
  else '\\' :: 'U' :: hexDigits 8 (codePoint c)

/-- The quote that a literal takes: single, unless only single quotes occur in it. -/
def literalQuote (s : List Char) : Char :=
  if s.contains '\'' && !s.contains '"' then '"' else '\''

def literal (s : String) : String :=
  let q := literalQuote s.toList
  String.ofList (q :: s.toList.flatMap (literalChar q) ++ [q])

def literalByte (q : Char) (b : UInt8) : List Char :=
  let c := Char.ofNat b.toNat
  if b.toNat < 0x80 then literalChar q c else '\\' :: 'x' :: hexDigits 2 b.toNat

def bytesLiteral (bs : List UInt8) : String :=
  let q := literalQuote (bs.map fun b => Char.ofNat b.toNat)
  String.ofList ('b' :: q :: bs.flatMap (literalByte q) ++ [q])

end ApiBindings.Text
