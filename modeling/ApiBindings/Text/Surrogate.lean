import ApiBindings.Text.Basic

/-!
Halves of surrogate pairs. A text is a sequence of code points, and an escape can put one half of a
pair into it, which no encoding of the text has a place for. Such a half is carried by a character
of a plane where none is assigned, and such characters do not come in from outside themselves.
-/

namespace ApiBindings.Text

def isHalf (n : Nat) : Bool := 0xd800 ≤ n && n < 0xe000

/-- The distance between a half and the character that carries it. -/
def carriage : Nat := 0x40000

def carriesHalf (c : Char) : Bool := carriage ≤ c.toNat && isHalf (c.toNat - carriage)

def codePoint (c : Char) : Nat := if carriesHalf c then c.toNat - carriage else c.toNat

/-- A character as it comes in from outside. -/
def received (c : Char) : Char := if carriesHalf c then '\ufffd' else c

def ofCodePoint (n : Nat) : Char :=
  if isHalf n then Char.ofNat (n + carriage) else received (Char.ofNat n)

def receivedText (s : String) : String := String.ofList (s.toList.map received)

def isEncodable (s : String) : Bool := s.toList.all fun c => !carriesHalf c

end ApiBindings.Text
