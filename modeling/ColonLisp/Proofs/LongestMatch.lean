/-
# Proofs.LongestMatch -- numerals are lexed by longest match, wherever the lexer meets one

`tokenize_takes_longest_numeral`: whenever the lexer, between two tokens of a source, sees the
beginning of a numeral, the rest of the source has a longest numeral at its front.  If what
follows it may follow a numeral, the next token is that numeral and the lexer goes on after it;
otherwise the tokens end there, with a fault at the place where the numeral begins.

`Machine.Reaches` says where the lexer can be and what tokens it has given by then.  One step
takes characters from the front of the text and moves the place over them (`Machine.step_takes`),
so at any time the place is that of the characters taken so far (`Machine.Reaches.place`), and
the tokens of the source are those given and those to come (`Machine.Reaches.tokenize_eq`).  At
the beginning of a numeral two steps are left: into the numeral, and over the longest one
(`Machine.step_to_class`, `Machine.step_over_numeral`).
-/
import ColonLisp.Proofs.LexicalGrammar

set_option autoImplicit false

namespace ColonLisp

namespace Token.Numeral

/-! ## Where a numeral begins and what may follow it -/

/-- The text begins with a digit, or a point and a digit, perhaps after a sign. -/
inductive StartsNumeral : List Char → Prop where
  | digit {d : Char} {rest : List Char} : d.isDigit = true → StartsNumeral (d :: rest)
  | point {d : Char} {rest : List Char} : d.isDigit = true → StartsNumeral ('.' :: d :: rest)
  | sign {c d : Char} {rest : List Char} : c = '+' ∨ c = '-' → d.isDigit = true →
      StartsNumeral (c :: d :: rest)
  | signPoint {c d : Char} {rest : List Char} : c = '+' ∨ c = '-' → d.isDigit = true →
      StartsNumeral (c :: '.' :: d :: rest)

theorem StartsNumeral.opens {text : List Char} (starts : StartsNumeral text) :
    opens text = true := by
  cases starts with
  | @digit d rest isDigit =>
      have decimal := startsDecimal_of_isDigit isDigit rest
      have bare := sign_append_of_begins (begins_sign_of_startsDecimal decimal) []
      rw [List.nil_append] at bare
      rw [Numeral.opens, bare]
      exact decimal
  | point isDigit => exact isDigit
  | @sign c d rest isSign isDigit =>
      have signed : Numeral.sign (c :: d :: rest) = ([c], d :: rest) := if_pos isSign
      rw [Numeral.opens, signed]
      exact startsDecimal_of_isDigit isDigit rest
  | @signPoint c d rest isSign isDigit =>
      have signed : Numeral.sign (c :: '.' :: d :: rest) = ([c], '.' :: d :: rest) := if_pos isSign
      rw [Numeral.opens, signed]
      exact isDigit

/-- The text is empty or begins with a character that is neither alphanumeric nor an underscore
nor a point. -/
def MayFollow (rest : List Char) : Prop :=
  ∀ c ∈ rest.head?, Text.isAlphanumeric c = false ∧ c ≠ '_' ∧ c ≠ '.'

theorem mayFollow_iff {rest : List Char} : MayFollow rest ↔ isBlocked rest = false := by
  cases rest with
  | nil => simp [MayFollow, isBlocked]
  | cons c rest => simp [MayFollow, isBlocked, and_assoc]

end Token.Numeral

namespace Lexer

open Token.Numeral (IsLongest IsNumeral MayFollow StartsNumeral)

/-! ## Where the lexer can be -/

/-- The place of a machine in the source. -/
def Machine.pos : Machine → Position
  | between _ pos _ | inside _ _ pos _ _ => pos

/-- The text that is still before a machine. -/
def Machine.text : Machine → List Char
  | between _ _ text => text
  | inside _ _ _ head tail => head :: tail

/-- A step takes characters from the front of the text, and the place moves over them. -/
theorem Machine.step_takes {machine next : Machine} {token : Option Token}
    (goes : machine.step = .go token next) :
    ∃ taken, machine.text = taken ++ next.text ∧ next.pos = machine.pos.after taken := by
  cases machine with
  | between depth pos text =>
      have whole := text.takeWhile_append_dropWhile (p := Text.isBlank)
      simp only [Machine.step] at goes
      generalize text.takeWhile Text.isBlank = gap at goes whole
      generalize text.dropWhile Text.isBlank = front at goes whole
      subst whole
      cases front with
      | nil => cases goes
      | cons c rest =>
          have further : gap ++ c :: rest = (gap ++ [c]) ++ rest := by simp
          have place : (pos.after gap).step c = pos.after (gap ++ [c]) := by
            rw [Position.after_append, Position.after_cons, Position.after_nil]
          simp only [atToken] at goes
          split at goes
          · cases goes
            exact ⟨gap ++ [c], further, place⟩
          split at goes
          · split at goes
            · cases goes
            · cases goes
              exact ⟨gap ++ [c], further, place⟩
          · split at goes
            · cases goes
              exact ⟨gap, rfl, rfl⟩
            · cases goes
  | inside cls depth pos head tail =>
      simp only [Machine.step] at goes
      split at goes
      · rename_i lexeme read
        cases goes
        exact ⟨lexeme.chars, (Class.append_of_read read).symm, rfl⟩
      · cases goes

/-- Lexing the source, the machine comes here, and has given these tokens on the way. -/
inductive Machine.Reaches (source : String) : List Token → Machine → Prop where
  | start : Reaches source [] (.start source)
  | step {given : List Token} {token : Option Token} {machine next : Machine} :
      Reaches source given machine → machine.step = .go token next →
      Reaches source (given ++ token.toList) next

theorem Machine.Reaches.tokenize_eq {source : String} {given : List Token} {machine : Machine}
    (reached : Machine.Reaches source given machine) :
    tokenize source = given ++ machine.tokens := by
  induction reached with
  | start => rfl
  | step _ goes ih => rw [ih, Machine.tokens_eq, goes, List.append_assoc]

theorem Machine.Reaches.place {source : String} {given : List Token} {machine : Machine}
    (reached : Machine.Reaches source given machine) :
    ∃ before, source.toList = before ++ machine.text ∧
      machine.pos = Position.start.after before := by
  induction reached with
  | start => exact ⟨[], rfl, rfl⟩
  | step _ goes ih =>
      obtain ⟨before, whole, place⟩ := ih
      obtain ⟨taken, text, moved⟩ := Machine.step_takes goes
      refine ⟨before ++ taken, ?_, ?_⟩
      · rw [whole, text, List.append_assoc]
      · rw [moved, place, Position.after_append]

/-! ## At a numeral -/

theorem Machine.step_to_class {depth : Nat} {pos : Position} {text tail : List Char} {c : Char}
    {cls : Class} (front : text.dropWhile Text.isBlank = c :: tail)
    (found : Class.of? c tail = some cls) :
    (Machine.between depth pos text).step =
      .go none (.inside cls depth (pos.after (text.takeWhile Text.isBlank)) c tail) := by
  obtain ⟨_, notOpening, notClosing⟩ := Class.visible_of_of? found
  simp only [Machine.step, front, atToken, notOpening, notClosing, found, if_false]

/-- Over a numeral that may end where it ends. -/
theorem Machine.step_over_numeral {depth : Nat} {pos : Position} {c : Char}
    {tail numeral rest : List Char} (longest : IsLongest IsNumeral (c :: tail) numeral rest)
    (free : MayFollow rest) :
    (Machine.inside .numeral depth pos c tail).step =
      .go (some ⟨.number, String.ofList numeral, pos⟩)
        (.between depth (pos.after numeral) rest) := by
  have read := (Class.numeral_read longest).2
  rw [Token.Numeral.mayFollow_iff.mp free] at read
  rw [Machine.step, read]
  rfl

theorem Machine.step_at_illegal_numeral {depth : Nat} {pos : Position} {c : Char}
    {tail numeral rest : List Char} (longest : IsLongest IsNumeral (c :: tail) numeral rest)
    (blocked : ¬ MayFollow rest) :
    (Machine.inside .numeral depth pos c tail).step =
      .stop (some (Objection.illegalNumber.token pos)) := by
  have read := (Class.numeral_read longest).2
  rw [Token.Numeral.mayFollow_iff, Bool.not_eq_false] at blocked
  rw [blocked] at read
  rw [Machine.step, read]
  rfl

/-- What is said of a source that has a numeral after `before`, which the lexer meets inside so
many parentheses and after the given tokens. -/
structure LexesNumeral (source : String) (given : List Token) (depth : Nat)
    (before numeral rest : List Char) : Prop where
  whole : source.toList = before ++ (numeral ++ rest)
  longest : IsLongest IsNumeral (numeral ++ rest) numeral rest
  /-- The numeral is the next token, and the lexer goes on after it. -/
  taken : MayFollow rest →
    let token : Token := ⟨.number, String.ofList numeral, Position.start.after before⟩
    let next := Machine.between depth (Position.start.after (before ++ numeral)) rest
    Machine.Reaches source (given ++ [token]) next ∧
      tokenize source = given ++ token :: next.tokens
  /-- The tokens end where the numeral begins. -/
  refused : ¬ MayFollow rest →
    tokenize source = given ++ [⟨.error, "illegal number", Position.start.after before⟩]

/-- Once the lexer is on the first character of a numeral, the place is that of the characters
before it. -/
theorem Machine.Reaches.lexesNumeral {source : String} {given : List Token} {depth : Nat}
    {pos : Position} {c : Char} {tail numeral rest : List Char}
    (entered : Machine.Reaches source given (.inside .numeral depth pos c tail))
    (longest : IsLongest IsNumeral (c :: tail) numeral rest) :
    ∃ before, LexesNumeral source given depth before numeral rest := by
  obtain ⟨before, whole, place⟩ := entered.place
  simp only [Machine.text, Machine.pos] at whole place
  rw [place] at entered
  refine ⟨before, ?_, ?_, fun free => ?_, fun blocked => ?_⟩
  · rw [whole, longest.whole]
  · rw [longest.whole]
    exact longest
  · have taken := entered.step (Machine.step_over_numeral longest free)
    rw [← Position.after_append, Option.toList_some] at taken
    refine ⟨taken, ?_⟩
    rw [taken.tokenize_eq, List.append_assoc, List.singleton_append]
  · rw [entered.tokenize_eq, Machine.tokens_eq, Machine.step_at_illegal_numeral longest blocked]
    rfl

end Lexer

open Lexer in
/-- **Numerals are lexed by longest match.**  Between two tokens, at the beginning of a numeral,
the longest one is the next token, or the tokens end with a fault that has its place. -/
theorem tokenize_takes_longest_numeral {source : String} {given : List Token} {depth : Nat}
    {pos : Position} {text : List Char}
    (reached : Machine.Reaches source given (.between depth pos text))
    (starts : Token.Numeral.StartsNumeral (text.dropWhile Text.isBlank)) :
    ∃ before numeral rest, text.dropWhile Text.isBlank = numeral ++ rest ∧
      LexesNumeral source given depth before numeral rest := by
  have opens := starts.opens
  cases front : text.dropWhile Text.isBlank with
  | nil =>
      rw [front] at opens
      cases opens
  | cons c tail =>
      rw [front] at opens
      obtain ⟨numeral, rest, longest, _⟩ := Token.Numeral.read?_longest opens
      have entered := reached.step (Machine.step_to_class front (Class.of?_of_opens opens))
      rw [Option.toList_none, List.append_nil] at entered
      obtain ⟨before, lexes⟩ := entered.lexesNumeral longest
      exact ⟨before, numeral, rest, longest.whole.symm, lexes⟩

open Lexer in
/-- A numeral with a point in its exponent, and after it the mark of a hexadecimal one that has
no digits. -/
theorem numerals_of_point_in_exponent_and_bare_mark :
    let source := "-1e.5 0x"
    let first : Token := ⟨.number, "-1e.5", ⟨1, 1⟩⟩
    (Token.Numeral.StartsNumeral source.toList ∧
      ∃ before numeral rest, source.toList = numeral ++ rest ∧
        LexesNumeral source [] 0 before numeral rest) ∧
    Machine.Reaches source [first] (.between 0 ⟨1, 6⟩ [' ', '0', 'x']) ∧
      Token.Numeral.StartsNumeral ['0', 'x'] ∧
      ∃ before numeral rest, ['0', 'x'] = numeral ++ rest ∧
        LexesNumeral source [first] 0 before numeral rest := by
  intro source first
  have chars : source.toList = ['-', '1', 'e', '.', '5', ' ', '0', 'x'] := by decide
  have begun : Machine.Reaches source [] (.between 0 ⟨1, 1⟩ source.toList) := .start
  rw [chars] at begun ⊢
  have signed : Token.Numeral.StartsNumeral ['-', '1', 'e', '.', '5', ' ', '0', 'x'] :=
    .sign (.inr rfl) rfl
  have marked : Token.Numeral.StartsNumeral ['0', 'x'] := .digit rfl
  have entered := begun.step (show _ = Outcome.go none _ from rfl)
  have between := entered.step (show _ = Outcome.go (some first) _ from rfl)
  exact ⟨⟨signed, tokenize_takes_longest_numeral begun signed⟩, between, marked,
    tokenize_takes_longest_numeral between marked⟩

end ColonLisp
