/-
# Token -- the words of the language

A token has a kind, its spelling in the source, and the place of its first
character.  Two kinds are not spelled in any source: an `error` token carries a
diagnostic in place of a spelling, and an `endOfInput` token stands where the
tokens run out.
-/
import ColonLisp.Position

set_option autoImplicit false

namespace ColonLisp

/-- The kinds of tokens. -/
inductive Token.Kind where
  | leftParen
  | rightParen
  /-- A numeral: it is lexed, and no expression holds one. -/
  | number
  | identifier
  /-- A quoted text, its quotes included. -/
  | string
  /-- The words `:true` and `:false`. -/
  | boolean
  /-- The word `:define`. -/
  | define
  /-- The word `:if`. -/
  | conditional
  /-- The source could not be read on; the token's text says why. -/
  | error
  | endOfInput
deriving DecidableEq, Repr, Inhabited

/-- A token of a source text. -/
structure Token where
  kind : Token.Kind
  text : String
  pos : Position
deriving DecidableEq, Repr, Inhabited

namespace Token

/-- The reserved words, with their colon, and the kinds they have. -/
def keywords : List (String × Kind) :=
  [(":true", .boolean), (":false", .boolean), (":define", .define), (":if", .conditional)]

/-- The kind of a reserved word, given with its colon. -/
def Kind.ofKeyword? (word : String) : Option Kind := keywords.lookup word

/-- Whether the token reports that the source could not be read on. -/
def isError (t : Token) : Bool := t.kind == .error

/-- The place just after a token that stands on one line. -/
def endPos (t : Token) : Position := ⟨t.pos.line, t.pos.column + t.text.length⟩

/-- The place just after a token, computed in 64-bit words: there is none if the sum of
the column and the length of the text overflows. -/
def endPos? (t : Token) : Option Position :=
  if t.pos.column + t.text.length < UInt64.size then some t.endPos else none

end Token

end ColonLisp
