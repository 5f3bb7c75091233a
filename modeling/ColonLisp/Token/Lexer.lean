/-
# Token.Lexer -- from a source text to its tokens

The lexer is a machine with two kinds of states.  `between` tokens it skips blanks
and looks at the next character: a parenthesis is a token by itself, any other
character tells the class of the token that begins there, or cannot begin one.
`inside` a token it reads the rest of the token by its class, as far as the class
reaches, and is between tokens again.

The machine counts the parentheses that are open, so it can refuse one that closes
nothing and the end of a source that leaves one open.  It stops at the first thing
it cannot read and says so with a last token of kind `error`: `tokenize` never fails.
`scan` is the strict reading, in which that token is a fault.

A machine inside a token still has the token's first character before it, so each visit
to `inside` takes a character and each visit to `between` is followed by at most one
to `inside`: a machine before `n` characters stops within `2 * n + 1` steps.
`Machine.budget` is that bound, and each step spends some of it
(`Machine.budget_lt_of_step`), so the fuel always suffices: `Machine.tokens_eq` unfolds
the tokens of a machine by one step, and no fuel is left in it.
-/
import ColonLisp.Fault
import ColonLisp.Text.Blank
import ColonLisp.Text.Quoted
import ColonLisp.Token
import ColonLisp.Token.Numeral

set_option autoImplicit false

namespace ColonLisp

namespace Lexer

/-! ## What the lexer objects to -/

/-- Why a source cannot be read on. -/
inductive Objection where
  | unterminatedParen
  | unexpectedParen
  | unterminatedString
  /-- The word after a colon is not reserved. -/
  | unexpectedKeyword (word : String)
  | illegalNumber
  | unexpectedCharacter (c : Char)
deriving DecidableEq, Repr, Inhabited

/-- The diagnostic of an objection. -/
def Objection.message : Objection → String
  | unterminatedParen => "unterminated left paren"
  | unexpectedParen => "unexpected right paren"
  | unterminatedString => "unterminated string"
  | unexpectedKeyword word => "unexpected keyword: " ++ word
  | illegalNumber => "illegal number"
  | unexpectedCharacter c => "unexpected character: " ++ String.singleton c

/-- The last token of a source that cannot be read on. -/
def Objection.token (why : Objection) (pos : Position) : Token := ⟨.error, why.message, pos⟩

/-! ## Classes of tokens -/

/-- The classes of tokens that may be longer than one character. -/
inductive Class where
  | quoted
  | keyword
  | numeral
  | word
deriving DecidableEq, Repr, Inhabited

/-- A letter or digit of ASCII, an underscore or a hyphen. -/
def isWordChar (c : Char) : Bool := c.isAlphanum || c == '_' || c == '-'

/-- The class of the token that begins with `c` when `rest` follows.  A sign begins a
word unless it begins a numeral. -/
def Class.of? (c : Char) (rest : List Char) : Option Class :=
  if c = '"' then some .quoted
  else if c = ':' then some .keyword
  else if Token.Numeral.opens (c :: rest) then some .numeral
  else if c.isLower || c == '+' || c == '-' then some .word
  else none

/-- A token's kind and characters, and the text after it. -/
structure Lexeme where
  kind : Token.Kind
  chars : List Char
  rest : List Char
deriving DecidableEq, Repr, Inhabited

/-- Reads the token of a class whose first character is `head`. -/
def Class.read (cls : Class) (head : Char) (tail : List Char) : Except Objection Lexeme :=
  match cls with
  | .quoted =>
      match Text.Quoted.closed? tail with
      | some (units, rest) => .ok ⟨.string, head :: units, rest⟩
      | none => .error .unterminatedString
  | .keyword =>
      let word := tail.takeWhile isWordChar
      match Token.Kind.ofKeyword? (String.ofList (head :: word)) with
      | some kind => .ok ⟨kind, head :: word, tail.dropWhile isWordChar⟩
      | none => .error (.unexpectedKeyword (String.ofList word))
  | .numeral =>
      match Token.Numeral.read? (head :: tail) with
      | some (digits, rest) => .ok ⟨.number, digits, rest⟩
      | none => .error .illegalNumber
  | .word => .ok ⟨.identifier, head :: tail.takeWhile isWordChar, tail.dropWhile isWordChar⟩

/-- A token and the text after it are the text that was read. -/
theorem Class.append_of_read {cls : Class} {head : Char} {tail : List Char} {lexeme : Lexeme}
    (found : cls.read head tail = .ok lexeme) : lexeme.chars ++ lexeme.rest = head :: tail := by
  cases cls <;> simp only [Class.read] at found
  · split at found
    · rename_i units rest closed
      cases found
      simp [Text.Quoted.append_of_closed? closed]
    · cases found
  · split at found
    · cases found
      simp
    · cases found
  · split at found
    · rename_i digits rest numeral
      cases found
      exact Token.Numeral.append_of_read? numeral
    · cases found
  · cases found
    simp

/-- A token has a character. -/
theorem Class.ne_nil_of_read {cls : Class} {head : Char} {tail : List Char} {lexeme : Lexeme}
    (found : cls.read head tail = .ok lexeme) : lexeme.chars ≠ [] := by
  cases cls <;> simp only [Class.read] at found
  · split at found <;> cases found
    simp
  · split at found <;> cases found
    simp
  · split at found
    · rename_i digits rest numeral
      cases found
      exact Token.Numeral.ne_nil_of_read? numeral
    · cases found
  · cases found
    simp

/-! ## The machine -/

/-- Where the machine is: how many parentheses are open, its place in the source, and
the text that is still to be read. -/
inductive Machine where
  /-- Before the next token, or the end. -/
  | between (depth : Nat) (pos : Position) (text : List Char)
  /-- On the first character of a token whose class is known. -/
  | inside (cls : Class) (depth : Nat) (pos : Position) (head : Char) (tail : List Char)
deriving Repr, Inhabited

/-- What one step of the machine does. -/
inductive Outcome where
  /-- The source is read, or cannot be read on; then the last token says why. -/
  | stop (last : Option Token)
  /-- The machine goes on, perhaps after a token. -/
  | go (token : Option Token) (next : Machine)
deriving Repr, Inhabited

/-- One step at the first character that is not blank. -/
def atToken (depth : Nat) (pos : Position) : List Char → Outcome
  | [] => .stop (if depth = 0 then none else some (Objection.unterminatedParen.token pos))
  | c :: rest =>
      if c = '(' then
        .go (some ⟨.leftParen, "(", pos⟩) (.between (depth + 1) (pos.step c) rest)
      else if c = ')' then
        match depth with
        | 0 => .stop (some (Objection.unexpectedParen.token pos))
        | outer + 1 => .go (some ⟨.rightParen, ")", pos⟩) (.between outer (pos.step c) rest)
      else
        match Class.of? c rest with
        | some cls => .go none (.inside cls depth pos c rest)
        | none => .stop (some ((Objection.unexpectedCharacter c).token pos))

/-- One step of the machine. -/
def Machine.step : Machine → Outcome
  | between depth pos text =>
      atToken depth (pos.after (text.takeWhile Text.isBlank)) (text.dropWhile Text.isBlank)
  | inside cls depth pos head tail =>
      match cls.read head tail with
      | .ok lexeme =>
          .go (some ⟨lexeme.kind, String.ofList lexeme.chars, pos⟩)
            (.between depth (pos.after lexeme.chars) lexeme.rest)
      | .error why => .stop (some (why.token pos))

/-- The tokens of at most `fuel` steps. -/
def Machine.run : Nat → Machine → List Token
  | 0, _ => []
  | fuel + 1, machine =>
      match machine.step with
      | .stop last => last.toList
      | .go token next => token.toList ++ next.run fuel

/-- The number of steps within which the machine stops. -/
def Machine.budget : Machine → Nat
  | between _ _ text => 2 * text.length + 1
  | inside _ _ _ _ tail => 2 * (tail.length + 1)

/-- The tokens of all steps of the machine. -/
def Machine.tokens (machine : Machine) : List Token := machine.run machine.budget

/-- Each step spends some of the budget. -/
theorem Machine.budget_lt_of_step {machine next : Machine} {token : Option Token}
    (goes : machine.step = .go token next) : next.budget < machine.budget := by
  cases machine with
  | between depth pos text =>
      have shorter : (text.dropWhile Text.isBlank).length ≤ text.length :=
        (List.dropWhile_sublist Text.isBlank).length_le
      rw [Machine.step, atToken.eq_def] at goes
      split at goes
      · cases goes
      · rename_i c rest front
        rw [front, List.length_cons] at shorter
        repeat' split at goes
        all_goals cases goes
        all_goals simp only [Machine.budget]; omega
  | inside cls depth pos head tail =>
      rw [Machine.step] at goes
      split at goes
      · rename_i lexeme read
        cases goes
        have whole := congrArg List.length (Class.append_of_read read)
        have some_char := List.length_pos_iff.mpr (Class.ne_nil_of_read read)
        simp only [List.length_append, List.length_cons] at whole
        simp only [Machine.budget]
        omega
      · cases goes

/-- More fuel than the budget changes nothing. -/
theorem Machine.run_eq_tokens {fuel : Nat} {machine : Machine} (enough : machine.budget ≤ fuel) :
    machine.run fuel = machine.tokens := by
  suffices ∀ bound fuel (machine : Machine), machine.budget ≤ fuel → machine.budget ≤ bound →
      machine.run fuel = machine.run bound from
    this machine.budget fuel machine enough (Nat.le_refl _)
  intro bound
  induction bound with
  | zero =>
      intro fuel machine _ none
      cases machine <;> simp [Machine.budget] at none
  | succ bound ih =>
      intro fuel machine enough within
      cases fuel with
      | zero => cases machine <;> simp [Machine.budget] at enough
      | succ fuel =>
          unfold Machine.run
          cases goes : machine.step with
          | stop last => rfl
          | go token next =>
              have spent := Machine.budget_lt_of_step goes
              simp only [ih fuel next (by omega) (by omega)]

/-- The tokens of a machine are those of its first step and of the machine after it. -/
theorem Machine.tokens_eq (machine : Machine) :
    machine.tokens =
      match machine.step with
      | .stop last => last.toList
      | .go token next => token.toList ++ next.tokens := by
  unfold Machine.tokens
  cases enough : machine.budget with
  | zero => cases machine <;> simp [Machine.budget] at enough
  | succ fuel =>
      rw [Machine.run]
      cases goes : machine.step with
      | stop last => rfl
      | go token next =>
          have spent := Machine.budget_lt_of_step goes
          simp only [Machine.run_eq_tokens (show next.budget ≤ fuel by omega), Machine.tokens]

/-- The machine before a source text. -/
def Machine.start (source : String) : Machine := .between 0 Position.start source.toList

end Lexer

/-- The tokens of a source text.  If the source cannot be read to its end, the last
token is of kind `error` and says why. -/
def tokenize (source : String) : List Token := (Lexer.Machine.start source).tokens

/-- The tokens of a source text, or a fault if it cannot be read to its end. -/
def scan (source : String) : Except Fault (List Token) :=
  let tokens := tokenize source
  match tokens.getLast? with
  | some last => if last.isError then .error (.lexical last.pos last.text) else .ok tokens
  | none => .ok tokens

end ColonLisp
