import ApiBindings.Text.Basic

/-!
Double-quoted texts, as JSON and TypeScript read them. Quote, backslash and the control
characters below the space are escaped; every other character stands for itself.
-/

namespace ApiBindings.Text

def quotedChar (c : Char) : List Char :=
  if c = '"' then ['\\', '"']
  else if c = '\\' then ['\\', '\\']
  else if c = '\n' then ['\\', 'n']
  else if c = '\r' then ['\\', 'r']
  else if c = '\t' then ['\\', 't']
  else if c.toNat = 8 then ['\\', 'b']
  else if c.toNat = 12 then ['\\', 'f']
  else if c.toNat < 0x20 then '\\' :: 'u' :: hexDigits 4 c.toNat
  else [c]

def quotedChars (s : List Char) : List Char := '"' :: s.flatMap quotedChar ++ ['"']

def quote (s : String) : String := String.ofList (quotedChars s.toList)

theorem quote_toList (s : String) : (quote s).toList = quotedChars s.toList := by
  simp [quote]

end ApiBindings.Text
