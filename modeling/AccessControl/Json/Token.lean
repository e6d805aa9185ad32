import AccessControl.Binary64.Text
import AccessControl.Text.Decimal
import AccessControl.Text.Quoted
import AccessControl.Value

/-!
The tokens of JSON text. A text is read from left to right, one character at a time.
-/

namespace AccessControl.Json

open Text (apostrophe quotation backslash)

inductive Token where
  | openList
  | closeList
  | openObject
  | closeObject
  | comma
  | colon
  | null
  | bool (b : Bool)
  | int (n : Int)
  | real (x : Binary64)
  | text (s : String)
deriving DecidableEq

def escape (c : Char) : List Char :=
  if c = quotation ∨ c = backslash then [backslash, c]
  else if c.toNat < 0x20 then backslash :: 'u' :: Text.hex 4 c.toNat
  else [c]

def realChars (x : Binary64) : List Char :=
  x.written ['I', 'n', 'f', 'i', 'n', 'i', 't', 'y'] ['N', 'a', 'N']

def openBrace : Char := Char.ofNat 0x7B
def closeBrace : Char := Char.ofNat 0x7D

def Token.chars : Token → List Char
  | .openList => ['[']
  | .closeList => [']']
  | .openObject => [openBrace]
  | .closeObject => [closeBrace]
  | .comma => [',']
  | .colon => [':']
  | .null => ['n', 'u', 'l', 'l']
  | .bool true => ['t', 'r', 'u', 'e']
  | .bool false => ['f', 'a', 'l', 's', 'e']
  | .int n => (toString n).toList
  | .real x => realChars x
  | .text s => quotation :: s.toList.flatMap escape ++ [quotation]

def isSpace (c : Char) : Bool :=
  c = ' ' || c = '\t' || c = '\n' || c = '\r'

def isWordChar (c : Char) : Bool :=
  c.isAlphanum || c = '-' || c = '+' || c = '.'

def fraction? : List Char → Option (List Char)
  | [] => some []
  | '.' :: ds => (Text.nat? ds).map fun _ => ds
  | _ => none

def real? (negative : Bool) (s : List Char) : Option Binary64 := do
  let (whole, rest) := s.span Char.isDigit
  let (point, power) := rest.span fun c => c != 'e' && c != 'E'
  if Text.isPlain whole && !rest.isEmpty then
    Text.ofDigits? negative whole (← fraction? point) (← Text.exponent? power)
  else none

def number? (s : List Char) : Option Token :=
  match Text.plainInt? s, s with
  | some n, _ => some (.int n)
  | none, '-' :: rest => (real? true rest).map .real
  | none, rest => (real? false rest).map .real

def wordTokens : List Token :=
  [.null, .bool true, .bool false, .real .nan, .real (.infinite false), .real (.infinite true)]

def word? (s : List Char) : Option Token :=
  match wordTokens.find? (·.chars == s) with
  | some t => some t
  | none => number? s

def wholeSize : List Char → Nat
  | '-' :: rest => (rest.takeWhile Char.isDigit).length
  | s => (s.takeWhile Char.isDigit).length

/-- Where the reader stands. Characters already read are kept backwards. -/
inductive Mode where
  | between
  | word (read : List Char)
  | text (read : List Char)
  | escaped (read : List Char)
  | unit (read : List Char) (high : Option Nat) (digits : Nat) (value : Nat)
  | half (read : List Char) (high : Nat) (slash : Bool)

structure Lexer where
  mode : Mode
  tokens : List Token

def hexValue? (c : Char) : Option Nat :=
  if '0' ≤ c ∧ c ≤ '9' then some (c.toNat - 0x30)
  else if 'a' ≤ c ∧ c ≤ 'f' then some (c.toNat - 0x61 + 10)
  else if 'A' ≤ c ∧ c ≤ 'F' then some (c.toNat - 0x41 + 10)
  else none

def unescape? (c : Char) : Option Char :=
  if c = quotation ∨ c = backslash ∨ c = '/' then some c
  else if c = 'b' then some (Char.ofNat 8)
  else if c = 'f' then some (Char.ofNat 12)
  else if c = 'n' then some '\n'
  else if c = 'r' then some '\r'
  else if c = 't' then some '\t'
  else none

/-- A complete code unit: a character, the first half of a pair, or the second half. -/
def Mode.ofUnit (read : List Char) (high : Option Nat) (u : Nat) : Option Mode :=
  match high with
  | none =>
    if 0xD800 ≤ u ∧ u < 0xDC00 then some (.half read u false)
    else if 0xDC00 ≤ u ∧ u < 0xE000 then none
    else some (.text (Char.ofNat u :: read))
  | some h =>
    if 0xDC00 ≤ u ∧ u < 0xE000 then
      some (.text (Char.ofNat (0x10000 + (h - 0xD800) * 0x400 + (u - 0xDC00)) :: read))
    else none

def Mode.punctuation? (c : Char) : Option Token :=
  if c = '[' then some .openList
  else if c = ']' then some .closeList
  else if c = openBrace then some .openObject
  else if c = closeBrace then some .closeObject
  else if c = ',' then some .comma
  else if c = ':' then some .colon
  else none

def Lexer.start (tokens : List Token) (c : Char) : Option Lexer :=
  if isSpace c then some ⟨.between, tokens⟩
  else if c = quotation then some ⟨.text [], tokens⟩
  else if isWordChar c then some ⟨.word [c], tokens⟩
  else (Mode.punctuation? c).map fun t => ⟨.between, t :: tokens⟩

/-- One more character; `word` reads numbers and words. -/
def Lexer.step (word : List Char → Option Token) (l : Lexer) (c : Char) : Option Lexer :=
  match l.mode with
  | .between => Lexer.start l.tokens c
  | .word read =>
    if isWordChar c then some { l with mode := .word (c :: read) }
    else (word read.reverse).bind fun t => Lexer.start (t :: l.tokens) c
  | .text read =>
    if c = quotation then some ⟨.between, .text (String.ofList read.reverse) :: l.tokens⟩
    else if c = backslash then some { l with mode := .escaped read }
    else if c.toNat < 0x20 then none
    else some { l with mode := .text (c :: read) }
  | .escaped read =>
    if c = 'u' then some { l with mode := .unit read none 0 0 }
    else (unescape? c).map fun d => { l with mode := .text (d :: read) }
  | .unit read high digits value => do
    let d ← hexValue? c
    if digits = 3 then
      let mode ← Mode.ofUnit read high (value * 16 + d)
      return { l with mode }
    else return { l with mode := .unit read high (digits + 1) (value * 16 + d) }
  | .half read high false =>
    if c = backslash then some { l with mode := .half read high true } else none
  | .half read high true =>
    if c = 'u' then some { l with mode := .unit read (some high) 0 0 } else none

def Lexer.finish (word : List Char → Option Token) (l : Lexer) : Option (List Token) :=
  match l.mode with
  | .between => some l.tokens.reverse
  | .word read => (word read.reverse).map fun t => (t :: l.tokens).reverse
  | _ => none

def tokensBy? (word : List Char → Option Token) (s : List Char) : Option (List Token) :=
  (s.foldlM (Lexer.step word) ⟨.between, []⟩).bind (Lexer.finish word)

def tokens? (s : List Char) : Option (List Token) := tokensBy? word? s

end AccessControl.Json
