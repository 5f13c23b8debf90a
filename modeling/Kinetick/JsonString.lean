import Mathlib.Data.List.Basic

/-!
# JSON strings

The text of a JSON string, read from its opening quote on, and of an array of strings. A text is
read as code points, in which an escape may write half of a surrogate pair; halves that stand side by
side are one character, and a lone half is the replacement character.
-/

namespace Kinetick.JsonString

def hexValue (c : Char) : Option ℕ :=
  if '0' ≤ c ∧ c ≤ '9' then some (c.toNat - 48)
  else if 'a' ≤ c ∧ c ≤ 'f' then some (c.toNat - 87)
  else if 'A' ≤ c ∧ c ≤ 'F' then some (c.toNat - 55)
  else none

/-- A code unit of four hexadecimal digits. -/
def hexUnit (a b c d : Char) : Option ℕ := do
  let a ← hexValue a
  let b ← hexValue b
  let c ← hexValue c
  let d ← hexValue d
  return ((a * 16 + b) * 16 + c) * 16 + d

/-- What a backslash and the character write. -/
def unescape (c : Char) : Option ℕ :=
  if c = '"' ∨ c = '\\' ∨ c = '/' then some c.toNat
  else if c = 'b' then some 8
  else if c = 'f' then some 12
  else if c = 'n' then some 10
  else if c = 'r' then some 13
  else if c = 't' then some 9
  else none

/-- The code points of a string up to its closing quote, and what stands after it. -/
def codePoints : List Char → Option (List ℕ × List Char)
  | '"' :: rest => some ([], rest)
  | '\\' :: 'u' :: a :: b :: c :: d :: rest => do
    let unit ← hexUnit a b c d
    let (units, rest) ← codePoints rest
    return (unit :: units, rest)
  | '\\' :: c :: rest => do
    let unit ← unescape c
    let (units, rest) ← codePoints rest
    return (unit :: units, rest)
  | c :: rest =>
    if c.toNat < 0x20 ∨ c = '\\' then none
    else do
      let (units, rest) ← codePoints rest
      return (c.toNat :: units, rest)
  | [] => none

def isHigh (n : ℕ) : Bool := 0xd800 ≤ n && n < 0xdc00

def isLow (n : ℕ) : Bool := 0xdc00 ≤ n && n < 0xe000

/-- The characters of code points. -/
def characters : List ℕ → List Char
  | [] => []
  | [n] => [if isHigh n || isLow n then Char.ofNat 0xfffd else Char.ofNat n]
  | n :: m :: rest =>
    if isHigh n && isLow m then
      Char.ofNat (0x10000 + (n - 0xd800) * 0x400 + (m - 0xdc00)) :: characters rest
    else (if isHigh n || isLow n then Char.ofNat 0xfffd else Char.ofNat n) :: characters (m :: rest)

def isSpace (c : Char) : Bool := c = ' ' || c = '\t' || c = '\n' || c = '\r'

def skipSpace (text : List Char) : List Char := text.dropWhile isSpace

/-- A string, and what stands after it and white space. -/
def string (text : List Char) : Option (String × List Char) :=
  match text with
  | '"' :: rest => (codePoints rest).map fun (units, rest) =>
    (String.ofList (characters units), skipSpace rest)
  | _ => none

/-- The strings of an array up to its closing bracket, which ends the text. `fuel` bounds how many. -/
def elements : (fuel : ℕ) → List Char → Option (List String)
  | 0, _ => none
  | fuel + 1, text => do
    let (first, rest) ← string text
    match rest with
    | [']'] => return [first]
    | ',' :: rest => return first :: (← elements fuel (skipSpace rest))
    | _ => none

/-- `JSON.parse(text)` of a text without white space around it, if that is an array of strings. -/
def stringArray (text : List Char) : Option (List String) :=
  match text with
  | '[' :: rest =>
    match skipSpace rest with
    | [']'] => some []
    | rest => elements text.length rest
  | _ => none

end Kinetick.JsonString
