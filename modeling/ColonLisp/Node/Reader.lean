/-
# Node.Reader -- from tokens to a program

The grammar has five expressions:

* a `string` token, an `identifier` token and a `boolean` token are each one;
* `( :define NAME EXPRESSION )` and `( :if EXPRESSION EXPRESSION EXPRESSION )`.

The reader takes one token at a time.  Its state keeps the statements that are
complete, the forms that are open, each with a hole that the next expression fills,
and what the innermost of them awaits.  The number of open parentheses is the number
of holes, and one more unless an expression is awaited.

A token that the state does not await is taken and then reported.  An `error` token
is reported and never taken, and neither is an `endOfInput` token, which ends the
program if no form is open.  So a reader can be asked again after a fault, and it
goes on where it stopped.

A reader is made with the place where its tokens run out.  Tokens of any origin may stand
in the last column that a 64-bit word can count; then there is no such place, and the
making of the reader breaks down (`Reader.ofTokens`, `parse?`).  The tokens of a source
always have a reader, because no source is as long as that (`parse?_tokenize`), and are
read by `parse`.
-/
import ColonLisp.Fault
import ColonLisp.Node
import ColonLisp.Text.Quoted
import ColonLisp.Token

set_option autoImplicit false

namespace ColonLisp

namespace Reader

/-! ## What the reader objects to -/

/-- Why a token does not follow the grammar. -/
inductive Objection where
  /-- A boolean token that is neither `:true` nor `:false`. -/
  | unknownKeyword (word : String)
  | missingExpression
  | unsupportedExpression
  | booleanHead (text : String)
  /-- A form that begins with a name. -/
  | call
  | missingHead
  | unsupportedHead
  | missingName
  | unsupportedName
  | missingParen
deriving DecidableEq, Repr, Inhabited

/-- The diagnostic of an objection. -/
def Objection.message : Objection → String
  | unknownKeyword word => "unknown keyword '" ++ word ++ "'"
  | missingExpression => "expected expression"
  | unsupportedExpression => "unsupported expression"
  | booleanHead text => "'" ++ text ++ "' cannot be called"
  | call => "function call are not yet supported"
  | missingHead => "expected definition or function call"
  | unsupportedHead => "expected keyword or function name"
  | missingName => "expected definition name"
  | unsupportedName => "expected identifier for definition name"
  | missingParen => "expected right paren"

/-- The fault of an objection at a place. -/
def Objection.fault (why : Objection) (pos : Position) : Fault := .syntactic pos why.message

/-! ## The state between two tokens -/

/-- An open form with the expressions it has so far; the next one fills its hole. -/
inductive Hole where
  /-- After `( :define NAME`. -/
  | value (name : String)
  /-- After `( :if`. -/
  | condition
  /-- After `( :if CONDITION`. -/
  | onTrue (condition : Node)
  /-- After `( :if CONDITION ON-TRUE`. -/
  | onFalse (condition onTrue : Node)
deriving Repr, Inhabited

/-- What the next token has to begin or be. -/
inductive Focus where
  | expression
  /-- The head of a form, after its parenthesis. -/
  | head
  /-- The name of a definition, after `:define`. -/
  | name
  /-- The parenthesis that completes a form. -/
  | close (form : Node)
deriving Repr, Inhabited

/-- What is missing if the tokens run out. -/
def Focus.missing : Focus → Objection
  | expression => .missingExpression
  | head => .missingHead
  | name => .missingName
  | close _ => .missingParen

/-- The reader between two tokens. -/
structure State where
  /-- The complete statements, the newest first. -/
  done : List Node
  /-- The open forms, the innermost first. -/
  holes : List Hole
  focus : Focus
deriving Repr, Inhabited

namespace State

/-- Before the first token. -/
def start : State := ⟨[], [], .expression⟩

/-- Whether the program may end here: no form is open. -/
def isComplete (s : State) : Bool :=
  match s.holes, s.focus with
  | [], .expression => true
  | _, _ => false

/-- A complete expression fills the innermost hole, or is a statement if no form is
open. -/
def fill (s : State) (node : Node) : State :=
  match s.holes with
  | [] => ⟨node :: s.done, [], .expression⟩
  | .value name :: outer => ⟨s.done, outer, .close (.definition name node)⟩
  | .condition :: outer => ⟨s.done, .onTrue node :: outer, .expression⟩
  | .onTrue condition :: outer => ⟨s.done, .onFalse condition node :: outer, .expression⟩
  | .onFalse condition onTrue :: outer =>
      ⟨s.done, outer, .close (.conditional condition onTrue node)⟩

end State

/-- The boolean that a reserved word spells. -/
def boolean? (word : String) : Option Bool :=
  if word = ":true" then some true else if word = ":false" then some false else none

/-- A word without the colons before it. -/
def bareWord (word : String) : String := String.ofList (word.toList.dropWhile (· == ':'))

/-- Takes one token, or objects to it. -/
def State.accept (s : State) (t : Token) : Except Objection State :=
  match s.focus with
  | .expression =>
      match t.kind with
      | .leftParen => .ok { s with focus := .head }
      | .string => .ok (s.fill (.string (Text.Quoted.decode t.text)))
      | .identifier => .ok (s.fill (.ref t.text))
      | .boolean =>
          match boolean? t.text with
          | some value => .ok (s.fill (.boolean value))
          | none => .error (.unknownKeyword (bareWord t.text))
      | _ => .error .unsupportedExpression
  | .head =>
      match t.kind with
      | .define => .ok { s with focus := .name }
      | .conditional => .ok ⟨s.done, .condition :: s.holes, .expression⟩
      | .boolean => .error (.booleanHead t.text)
      | .identifier => .error .call
      | _ => .error .unsupportedHead
  | .name =>
      match t.kind with
      | .identifier => .ok ⟨s.done, .value t.text :: s.holes, .expression⟩
      | _ => .error .unsupportedName
  | .close form =>
      match t.kind with
      | .rightParen => .ok (s.fill form)
      | _ => .error .missingParen

/-- The program that ends at a place, or what it lacks there. -/
def State.finish (s : State) (pos : Position) : Except Fault Node :=
  if s.isComplete then .ok (.program s.done.reverse) else .error (s.focus.missing.fault pos)

/-- Reads from a state on.  `stop` is the place where the tokens run out; the tokens
that were not taken are returned. -/
def State.read (stop : Position) : State → List Token → Except Fault Node × List Token
  | s, [] => (s.finish stop, [])
  | s, t :: rest =>
      match t.kind with
      | .endOfInput => (s.finish t.pos, t :: rest)
      | .error => (.error (.lexical t.pos t.text), t :: rest)
      | _ =>
          match s.accept t with
          | .ok next => next.read stop rest
          | .error why => (.error (why.fault t.pos), rest)

end Reader

/-! ## Readers -/

/-- A reader: the tokens that are not taken yet, and the place where they run out. -/
structure Reader where
  rest : List Token
  stop : Position
deriving Repr, Inhabited

namespace Reader

/-- A reader before all of its tokens.  They run out after the last of them, or at the
start of the source if there is none.  There is no reader if the column of that place
overflows: the addition ends the whole program. -/
def ofTokens (tokens : List Token) : Option Reader :=
  match tokens.getLast? with
  | none => some ⟨tokens, Position.start⟩
  | some last => last.endPos?.map (Reader.mk tokens)

/-- Reads a program, up to the end of the tokens or the first fault. -/
def read (reader : Reader) : Except Fault Node × Reader :=
  let (result, rest) := State.start.read reader.stop reader.rest
  (result, ⟨rest, reader.stop⟩)

/-- The results of reading `calls` times in a row. -/
def readTimes : Nat → Reader → List (Except Fault Node)
  | 0, _ => []
  | calls + 1, reader =>
      let (result, next) := reader.read
      result :: readTimes calls next

/-- The place where tokens run out. -/
def endOf (tokens : List Token) : Position :=
  (tokens.getLast?.map Token.endPos).getD Position.start

/-- The place where the tokens run out has a column that fits in a word. -/
def EndFits (tokens : List Token) : Prop :=
  ∀ last ∈ tokens.getLast?, last.pos.column + last.text.length < UInt64.size

instance (tokens : List Token) : Decidable (EndFits tokens) :=
  inferInstanceAs (Decidable (∀ last ∈ tokens.getLast?, _))

theorem endFits_iff_of_getLast? {tokens : List Token} {last : Token}
    (isLast : tokens.getLast? = some last) :
    EndFits tokens ↔ last.pos.column + last.text.length < UInt64.size := by
  simp [EndFits, isLast]

theorem ofTokens_of_endFits {tokens : List Token} (fits : EndFits tokens) :
    ofTokens tokens = some ⟨tokens, endOf tokens⟩ := by
  unfold EndFits at fits
  unfold ofTokens endOf
  cases isLast : tokens.getLast? with
  | none => rfl
  | some last => simp [Token.endPos?, fits last isLast]

theorem ofTokens_eq_none_iff {tokens : List Token} : ofTokens tokens = none ↔ ¬ EndFits tokens := by
  constructor
  · intro none fits
    rw [ofTokens_of_endFits fits] at none
    cases none
  · unfold EndFits ofTokens
    cases isLast : tokens.getLast? with
    | none => simp
    | some last => simp [Token.endPos?]

theorem EndFits.of_ofTokens {tokens : List Token} {reader : Reader}
    (made : ofTokens tokens = some reader) : EndFits tokens := by
  refine Decidable.byContradiction fun overflows => ?_
  rw [ofTokens_eq_none_iff.mpr overflows] at made
  cases made

end Reader

/-- What tokens of any origin spell, if there is a reader for them. -/
def parse? (tokens : List Token) : Option (Except Fault Node) :=
  (Reader.ofTokens tokens).map fun reader => reader.read.1

/-- What the tokens of a source spell. -/
def parse (tokens : List Token) : Except Fault Node :=
  (Reader.mk tokens (Reader.endOf tokens)).read.1

/-- Where there is a reader, it makes no difference whether the tokens come from a source. -/
theorem parse?_of_endFits {tokens : List Token} (fits : Reader.EndFits tokens) :
    parse? tokens = some (parse tokens) := by
  rw [parse?, Reader.ofTokens_of_endFits fits]
  rfl

theorem parse?_eq_none_iff {tokens : List Token} :
    parse? tokens = none ↔ ¬ Reader.EndFits tokens := by
  rw [parse?, Option.map_eq_none_iff, Reader.ofTokens_eq_none_iff]

theorem parse?_eq_some_iff {tokens : List Token} {result : Except Fault Node} :
    parse? tokens = some result ↔ Reader.EndFits tokens ∧ parse tokens = result := by
  by_cases fits : Reader.EndFits tokens
  · simp [parse?_of_endFits fits, fits]
  · simp [parse?_eq_none_iff.mpr fits, fits]

end ColonLisp
