/-
# Token.Json -- tokens in JSON

A token is an object with its kind, text, line and column, in this order.  It is read
back from such an object, in which other members are ignored and the order does not
matter, or from an array of just these four.  Lines and columns are 64-bit words.

A kind is a string, and is read also from an object that holds `null` under it.
-/
import ColonLisp.Json
import ColonLisp.Token

set_option autoImplicit false

namespace ColonLisp.Token

/-- The name of a kind. -/
def Kind.name : Kind → String
  | .leftParen => "LeftParen"
  | .rightParen => "RightParen"
  | .number => "Number"
  | .identifier => "Identifier"
  | .string => "String"
  | .boolean => "Boolean"
  | .define => "Define"
  | .conditional => "If"
  | .error => "Error"
  | .endOfInput => "EndOfInput"

/-- All kinds. -/
def Kind.all : List Kind :=
  [.leftParen, .rightParen, .number, .identifier, .string, .boolean, .define, .conditional,
   .error, .endOfInput]

/-- The kind with a name. -/
def Kind.ofName? (name : String) : Option Kind := Kind.all.find? fun kind => kind.name == name

/-- The kind that a value names. -/
def Kind.ofJson? : Json → Option Kind
  | .string name => Kind.ofName? name
  | .object [(name, .null)] => Kind.ofName? name
  | _ => none

/-- A token as an object. -/
def toJson (t : Token) : Json :=
  .object [("kind", .string t.kind.name), ("text", .string t.text),
    ("line", .natural t.pos.line), ("column", .natural t.pos.column)]

/-- The token of four values. -/
def ofFields? (kind text line column : Json) : Option Token := do
  return ⟨← Kind.ofJson? kind, ← text.string?, ← line.word?, ← column.word?⟩

/-- The token that a value is. -/
def ofJson? (json : Json) : Option Token :=
  match json with
  | .array [kind, text, line, column] => ofFields? kind text line column
  | .object _ => do
      ofFields? (← json.member? "kind") (← json.member? "text") (← json.member? "line")
        (← json.member? "column")
  | _ => none

end ColonLisp.Token
