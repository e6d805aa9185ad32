import AccessControl.Text.Printable

/-!
Quoted text: a string between two quotes, in which every character that would break the line, end
the text or not show at all is escaped.
-/

namespace AccessControl.Text

def apostrophe : Char := Char.ofNat 0x27
def quotation : Char := Char.ofNat 0x22
def backslash : Char := Char.ofNat 0x5C

def hexDigit (n : Nat) : Char :=
  if n < 10 then Char.ofNat (0x30 + n) else Char.ofNat (0x61 + (n - 10))

def hex : Nat → Nat → List Char
  | 0, _ => []
  | width + 1, n => hex width (n / 16) ++ [hexDigit (n % 16)]

def escape (mark c : Char) : List Char :=
  if c = mark ∨ c = backslash then [backslash, c]
  else if c = '\n' then [backslash, 'n']
  else if c = '\r' then [backslash, 'r']
  else if c = '\t' then [backslash, 't']
  else if isPrintable c then [c]
  else if c.toNat < 0x100 then backslash :: 'x' :: hex 2 c.toNat
  else if c.toNat < 0x10000 then backslash :: 'u' :: hex 4 c.toNat
  else backslash :: 'U' :: hex 8 c.toNat

/-- Apostrophes enclose a text, unless it holds one and no quotation mark. -/
def mark (s : List Char) : Char :=
  if apostrophe ∈ s ∧ quotation ∉ s then quotation else apostrophe

def quoteChars (s : List Char) : List Char :=
  mark s :: s.flatMap (escape (mark s)) ++ [mark s]

def quoted (s : String) : String :=
  String.ofList (quoteChars s.toList)

end AccessControl.Text
