/-
# Json.Writer -- JSON values as text

Both layouts write the same characters but for blanks: `compact` writes none, and
`pretty` writes each item and member on a line of its own, indented by two spaces for
each bracket around it, and a space after each colon.  An empty array or object is
written without a line in both.

In a string, the quote, the backslash and the control characters below U+0020 are
escaped; every other character is written as it is.
-/
import ColonLisp.Json

set_option autoImplicit false

namespace ColonLisp.Json

/-! ## Strings -/

/-- The lower-case hexadecimal digit of a number below sixteen. -/
def hexDigit (n : Nat) : Char := Nat.digitChar n

/-- How a character is written in a string. -/
def escape (c : Char) : List Char :=
  if c = '"' then ['\\', '"']
  else if c = '\\' then ['\\', '\\']
  else if c = '\n' then ['\\', 'n']
  else if c = '\r' then ['\\', 'r']
  else if c = '\t' then ['\\', 't']
  else if c.toNat = 0x08 then ['\\', 'b']
  else if c.toNat = 0x0c then ['\\', 'f']
  else if c.toNat < 0x20 then
    ['\\', 'u', '0', '0', hexDigit (c.toNat / 16), hexDigit (c.toNat % 16)]
  else [c]

/-- A text as a string. -/
def quote (text : String) : List Char := '"' :: text.toList.flatMap escape ++ ['"']

/-! ## Layouts -/

/-- Where blanks are written. -/
structure Layout where
  /-- What is written before an item or a closing bracket that stands inside so many
  brackets. -/
  line : Nat → List Char
  /-- What is written between a key and its value. -/
  colon : List Char

/-- No blanks. -/
def Layout.compact : Layout := ⟨fun _ => [], [':']⟩

/-- One item a line, indented by two spaces a bracket. -/
def Layout.pretty : Layout := ⟨fun depth => '\n' :: List.replicate (2 * depth) ' ', [':', ' ']⟩

/-! ## Values -/

mutual

/-- The text of a value that stands inside `depth` brackets. -/
def chars (layout : Layout) (depth : Nat) : Json → List Char
  | null => ['n', 'u', 'l', 'l']
  | bool true => ['t', 'r', 'u', 'e']
  | bool false => ['f', 'a', 'l', 's', 'e']
  | natural value => Nat.toDigits 10 value
  | number spelling => spelling.toList
  | string text => quote text
  | array [] => ['[', ']']
  | array (item :: items) =>
      '[' :: layout.line (depth + 1) ++ chars layout (depth + 1) item ++
        itemsChars layout (depth + 1) items ++ layout.line depth ++ [']']
  | object [] => ['\x7b', '\x7d']
  | object ((key, value) :: members) =>
      '\x7b' :: layout.line (depth + 1) ++ quote key ++ layout.colon ++
        chars layout (depth + 1) value ++
        membersChars layout (depth + 1) members ++ layout.line depth ++ ['\x7d']

/-- The text of the items after the first. -/
def itemsChars (layout : Layout) (depth : Nat) : List Json → List Char
  | [] => []
  | item :: items =>
      ',' :: layout.line depth ++ chars layout depth item ++ itemsChars layout depth items

/-- The text of the members after the first. -/
def membersChars (layout : Layout) (depth : Nat) : List (String × Json) → List Char
  | [] => []
  | (key, value) :: members =>
      ',' :: layout.line depth ++ quote key ++ layout.colon ++ chars layout depth value ++
        membersChars layout depth members

end

/-- The text of a value in a layout. -/
def write (layout : Layout) (json : Json) : String := String.ofList (json.chars layout 0)

/-- The text of a value without blanks. -/
def compact (json : Json) : String := json.write .compact

/-- The text of a value with one item a line. -/
def pretty (json : Json) : String := json.write .pretty

end ColonLisp.Json
