/-
# Json.Reader -- JSON values from text

`read?` reads a text that is one JSON value, with blanks around and inside it as the
format allows, and refuses any other.  If an object has a key twice, the later member
stands.

A character outside the basic plane may be escaped as a surrogate pair; half a pair is
refused.

The readers of values, items and members call each other with one unit of fuel less.
Two calls in a row take a character from the text, so twice its length and two more is
always enough.
-/
import ColonLisp.Json

set_option autoImplicit false

namespace ColonLisp.Json

/-- A blank of the format. -/
def isSpace (c : Char) : Bool := c == ' ' || c == '\t' || c == '\n' || c == '\r'

/-- A text without the blanks at its front. -/
def skip (text : List Char) : List Char := text.dropWhile isSpace

/-! ## Strings -/

/-- What one character or escape of a string stands for. -/
inductive Piece where
  | char (c : Char)
  /-- A UTF-16 code unit. -/
  | unit (code : Nat)
deriving DecidableEq, Repr, Inhabited

/-- The value of a hexadecimal digit. -/
def hexValue? (c : Char) : Option Nat :=
  if '0' ≤ c ∧ c ≤ '9' then some (c.toNat - '0'.toNat)
  else if 'a' ≤ c ∧ c ≤ 'f' then some (c.toNat - 'a'.toNat + 10)
  else if 'A' ≤ c ∧ c ≤ 'F' then some (c.toNat - 'A'.toNat + 10)
  else none

/-- The code unit of four hexadecimal digits. -/
def unit? (a b c d : Char) : Option Nat := do
  return 4096 * (← hexValue? a) + 256 * (← hexValue? b) + 16 * (← hexValue? c) + (← hexValue? d)

/-- The character that a backslash followed by `c` stands for. -/
def unescape? (c : Char) : Option Char :=
  if c = '"' ∨ c = '\\' ∨ c = '/' then some c
  else if c = 'b' then some (Char.ofNat 0x08)
  else if c = 'f' then some (Char.ofNat 0x0c)
  else if c = 'n' then some '\n'
  else if c = 'r' then some '\r'
  else if c = 't' then some '\t'
  else none

/-- The pieces of a string up to its closing quote, and what follows. -/
def pieces? : List Char → Option (List Piece × List Char)
  | [] => none
  | '"' :: rest => some ([], rest)
  | '\\' :: 'u' :: a :: b :: c :: d :: rest => do
      let code ← unit? a b c d
      let (pieces, after) ← pieces? rest
      return (.unit code :: pieces, after)
  | '\\' :: c :: rest => do
      let char ← unescape? c
      let (pieces, after) ← pieces? rest
      return (.char char :: pieces, after)
  | c :: rest =>
      if c.toNat < 0x20 then none
      else do
        let (pieces, after) ← pieces? rest
        return (.char c :: pieces, after)

/-- Whether a code unit is the first half of a surrogate pair. -/
def isHigh (code : Nat) : Bool := 0xd800 ≤ code && code < 0xdc00

/-- Whether a code unit is the second half of a surrogate pair. -/
def isLow (code : Nat) : Bool := 0xdc00 ≤ code && code < 0xe000

/-- The characters of pieces. -/
def join? : List Piece → Option (List Char)
  | [] => some []
  | .char c :: rest => (join? rest).map (c :: ·)
  | .unit code :: rest =>
      if isHigh code then
        match rest with
        | .unit next :: rest =>
            if isLow next then
              (join? rest).map
                (Char.ofNat (0x10000 + 0x400 * (code - 0xd800) + (next - 0xdc00)) :: ·)
            else none
        | _ => none
      else if isLow code then none
      else (join? rest).map (Char.ofNat code :: ·)

/-- The text of a string after its opening quote, and what follows the string. -/
def text? (text : List Char) : Option (String × List Char) := do
  let (pieces, rest) ← pieces? text
  return (String.ofList (← join? pieces), rest)

/-! ## Numbers -/

/-- Takes one or more digits. -/
def digits? (text : List Char) : Option (List Char × List Char) :=
  let digits := text.takeWhile Char.isDigit
  if digits.isEmpty then none else some (digits, text.dropWhile Char.isDigit)

/-- Takes an optional fraction. -/
def fraction? : List Char → Option (List Char × List Char)
  | '.' :: rest => (digits? rest).map fun (digits, rest) => ('.' :: digits, rest)
  | text => some ([], text)

/-- Takes an optional exponent. -/
def exponent? : List Char → Option (List Char × List Char)
  | [] => some ([], [])
  | c :: rest =>
      if c = 'e' ∨ c = 'E' then
        match rest with
        | [] => none
        | s :: tail =>
            if s = '+' ∨ s = '-' then
              (digits? tail).map fun (digits, rest) => (c :: s :: digits, rest)
            else (digits? rest).map fun (digits, rest) => (c :: digits, rest)
      else some ([], c :: rest)

/-- Whether digits are written without needless zeros in front. -/
def isTrimmed : List Char → Bool
  | '0' :: _ :: _ => false
  | _ => true

/-- Takes a number without a sign: its whole digits, what comes after them, and the
rest of the text. -/
def unsigned? (text : List Char) : Option (List Char × List Char × List Char) := do
  let (whole, rest) ← digits? text
  let (fraction, rest) ← fraction? rest
  let (exponent, rest) ← exponent? rest
  if isTrimmed whole then return (whole, fraction ++ exponent, rest) else none

/-- Takes a number. -/
def number? : List Char → Option (Json × List Char)
  | '-' :: text => do
      let (whole, part, rest) ← unsigned? text
      return (.number (String.ofList ('-' :: (whole ++ part))), rest)
  | text => do
      let (whole, part, rest) ← unsigned? text
      if part.isEmpty then return (.natural (Nat.ofDigitChars 10 whole 0), rest)
      else return (.number (String.ofList (whole ++ part)), rest)

/-! ## Values -/

/-- Members with one more in front, unless a later one has its key. -/
def addMember (key : String) (value : Json) (members : List (String × Json)) :
    List (String × Json) :=
  if (members.lookup key).isSome then members else (key, value) :: members

mutual

/-- Takes a value. -/
def value? : Nat → List Char → Option (Json × List Char)
  | 0, _ => none
  | fuel + 1, text =>
      match skip text with
      | 'n' :: 'u' :: 'l' :: 'l' :: rest => some (.null, rest)
      | 't' :: 'r' :: 'u' :: 'e' :: rest => some (.bool true, rest)
      | 'f' :: 'a' :: 'l' :: 's' :: 'e' :: rest => some (.bool false, rest)
      | '"' :: rest => (text? rest).map fun (text, rest) => (.string text, rest)
      | '[' :: rest =>
          match skip rest with
          | ']' :: rest => some (.array [], rest)
          | rest => (items? fuel rest).map fun (items, rest) => (.array items, rest)
      | '\x7b' :: rest =>
          match skip rest with
          | '\x7d' :: rest => some (.object [], rest)
          | rest => (members? fuel rest).map fun (members, rest) => (.object members, rest)
      | rest => number? rest

/-- Takes the items of an array and its closing bracket. -/
def items? : Nat → List Char → Option (List Json × List Char)
  | 0, _ => none
  | fuel + 1, text => do
      let (item, rest) ← value? fuel text
      match skip rest with
      | ',' :: rest => do
          let (items, rest) ← items? fuel rest
          return (item :: items, rest)
      | ']' :: rest => return ([item], rest)
      | _ => none

/-- Takes the members of an object and its closing brace. -/
def members? : Nat → List Char → Option (List (String × Json) × List Char)
  | 0, _ => none
  | fuel + 1, text =>
      match skip text with
      | '"' :: rest => do
          let (key, rest) ← text? rest
          match skip rest with
          | ':' :: rest => do
              let (value, rest) ← value? fuel rest
              match skip rest with
              | ',' :: rest => do
                  let (members, rest) ← members? fuel rest
                  return (addMember key value members, rest)
              | '\x7d' :: rest => return ([(key, value)], rest)
              | _ => none
          | _ => none
      | _ => none

end

/-- The value that a text is, if it is one. -/
def read? (text : String) : Option Json := do
  let chars := text.toList
  let (json, rest) ← value? (2 * chars.length + 2) chars
  if (skip rest).isEmpty then return json else none

end ColonLisp.Json
