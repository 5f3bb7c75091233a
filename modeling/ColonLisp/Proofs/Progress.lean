/-
# Proofs.Progress -- the lexer always gets on

`lexer_makes_progress`: the machine before a source of `n` characters stops within `2 * n + 1`
steps, having given the tokens of the source.  Each time it is between two tokens it stops, or is
between tokens again within two steps and with less text before it.  A numeral, which is entered
on its first character, takes at least that one, and a decimal numeral has a digit.

* Each step spends some of the budget (`Machine.budget_lt_of_step`).  So a run ends
  (`Machine.exists_halts`), and a step to between two tokens has taken a character
  (`Machine.resumes_of_step`).  No token is entered from inside another
  (`Machine.entered_of_step`), so two steps suffice (`Machine.between_getsOn`).
* A numeral is entered where looking ahead has found a digit, and the reading meets that digit
  (`digits_of_startsDecimal`).  A numeral that is refused leaves no trace in the machine of how
  far it was read, so `sweep` says what the reading goes over; it is the reading
  (`read?_eq_sweep`).
-/
import ColonLisp.Proofs.LongestMatch

set_option autoImplicit false

namespace ColonLisp

/-! ## What the reading of a numeral goes over -/

namespace Token.Numeral

/-- How far the reading of a numeral gets before it is accepted or refused. -/
structure Sweep where
  /-- What is taken from the text either way. -/
  chars : List Char
  /-- How many digits stand after the mark of a hexadecimal numeral, or before the exponent of
  a decimal one. -/
  digits : Nat
  rest : List Char

/-- Goes over a numeral without a sign.  There is no exponent without a digit before it. -/
def sweepUnsigned (text : List Char) : Sweep :=
  match hexMark? text with
  | some (mark, rest) =>
      let digits := run isHexDigit rest
      ⟨mark ++ digits.1, digits.1.length, digits.2⟩
  | none =>
      let mantissa := decimal text
      let digits := mantissa.1.countP Char.isDigit
      let power := if digits = 0 then ([], mantissa.2) else exponent mantissa.2
      ⟨mantissa.1 ++ power.1, digits, power.2⟩

/-- Goes over the numeral at the front of a text. -/
def sweep (text : List Char) : Sweep :=
  let unsigned := sweepUnsigned (sign text).2
  { unsigned with chars := (sign text).1 ++ unsigned.chars }

theorem unsigned?_eq_sweep (text : List Char) :
    unsigned? text =
      if (sweepUnsigned text).digits = 0 then none
      else some ((sweepUnsigned text).chars, (sweepUnsigned text).rest) := by
  cases marked : hexMark? text with
  | some split => simp [unsigned?, sweepUnsigned, marked]
  | none =>
      cases digit : (decimal text).1.any Char.isDigit with
      | false =>
          have none : (decimal text).1.countP Char.isDigit = 0 := by
            simpa [List.countP_eq_zero] using digit
          simp [unsigned?, sweepUnsigned, marked, digit, none]
      | true =>
          have some_digit : (decimal text).1.countP Char.isDigit ≠ 0 := by
            simpa [List.countP_eq_zero] using digit
          simp [unsigned?, sweepUnsigned, marked, digit, some_digit]

/-- A numeral is read by going over it, and refused if it has no digit or is blocked. -/
theorem read?_eq_sweep (text : List Char) :
    read? text =
      if (sweep text).digits = 0 ∨ isBlocked (sweep text).rest = true then none
      else some ((sweep text).chars, (sweep text).rest) := by
  simp only [read?, unsigned?_eq_sweep, sweep]
  by_cases none : (sweepUnsigned (sign text).2).digits = 0
  · simp [none]
  · simp [none]

theorem sweepUnsigned_append (text : List Char) :
    (sweepUnsigned text).chars ++ (sweepUnsigned text).rest = text := by
  cases marked : hexMark? text with
  | some split =>
      have whole := append_of_hexMark? marked
      simp [sweepUnsigned, marked, run_append, whole]
  | none =>
      simp only [sweepUnsigned, marked]
      split
      · simp [decimal_append]
      · simp [exponent_append, decimal_append]

theorem sweep_append (text : List Char) : (sweep text).chars ++ (sweep text).rest = text := by
  rw [sweep, List.append_assoc, sweepUnsigned_append, sign_append]

/-- Where a decimal begins, its digits are counted: the digit that was looked for is one. -/
theorem digits_of_startsDecimal {text : List Char} (starts : startsDecimal text = true)
    (unmarked : hexMark? text = none) : 0 < (sweepUnsigned text).digits := by
  obtain ⟨d, member, isDigit⟩ := List.any_eq_true.mp (any_isDigit_of_startsDecimal starts)
  simp only [sweepUnsigned, unmarked]
  exact List.countP_pos_iff.mpr ⟨d, member, isDigit⟩

theorem chars_ne_nil_of_startsDecimal {text : List Char} (starts : startsDecimal text = true) :
    (sweepUnsigned text).chars ≠ [] := by
  cases marked : hexMark? text with
  | some split =>
      -- The digits after a mark may be missing, but the mark is taken.
      obtain ⟨mark, rest⟩ := split
      have isMark : mark ≠ [] := by
        rintro rfl
        cases hexMark?_mark marked []
      simp [sweepUnsigned, marked, isMark]
  | none =>
      have some_digit := digits_of_startsDecimal starts marked
      have taken := unsigned?_eq_sweep text
      rw [if_neg (Nat.ne_of_gt some_digit)] at taken
      exact ne_nil_of_unsigned? taken

end Token.Numeral

namespace Lexer

open Token.Numeral (Sweep sweep hexMark? sign isBlocked)

/-! ## Runs to the end -/

/-- The machine stops at the end of so many steps, and has given the tokens by then. -/
inductive Machine.Halts : Machine → Nat → List Token → Prop where
  | stop {machine : Machine} {last : Option Token} :
      machine.step = .stop last → Halts machine 1 last.toList
  | go {machine next : Machine} {token : Option Token} {steps : Nat} {tokens : List Token} :
      machine.step = .go token next → Halts next steps tokens →
      Halts machine (steps + 1) (token.toList ++ tokens)

theorem Machine.budget_pos (machine : Machine) : 0 < machine.budget := by
  cases machine with
  | between => exact Nat.succ_pos _
  | inside => exact Nat.succ_pos _

/-- Every machine stops within its budget. -/
theorem Machine.exists_halts (machine : Machine) :
    ∃ steps ≤ machine.budget, machine.Halts steps machine.tokens := by
  rw [Machine.tokens_eq]
  cases goes : machine.step with
  | stop last => exact ⟨1, machine.budget_pos, .stop goes⟩
  | go token next =>
      have spent := Machine.budget_lt_of_step goes
      obtain ⟨steps, within, halts⟩ := next.exists_halts
      exact ⟨steps + 1, Nat.lt_of_le_of_lt within spent, .go goes halts⟩
termination_by machine.budget

/-! ## From one token to the next -/

/-- The step is the last one, or after it the machine is between two tokens and has taken a
character of the text or more. -/
def Outcome.Resumes (text : List Char) (outcome : Outcome) : Prop :=
  (∃ last, outcome = .stop last) ∨
    ∃ token depth pos taken rest, outcome = .go token (.between depth pos rest) ∧
      text = taken ++ rest ∧ taken ≠ []

theorem Outcome.Resumes.append {text : List Char} {outcome : Outcome}
    (resumes : outcome.Resumes text) (gap : List Char) : outcome.Resumes (gap ++ text) := by
  rcases resumes with stops | ⟨token, depth, pos, taken, rest, goes, rfl, nonempty⟩
  · exact .inl stops
  · refine .inr ⟨token, depth, pos, gap ++ taken, rest, goes, ?_, ?_⟩
    · rw [List.append_assoc]
    · simp [nonempty]

/-- A step to between two tokens takes a character, or it would spend nothing. -/
theorem Machine.resumes_of_step {machine : Machine} {token : Option Token} {depth : Nat}
    {pos : Position} {rest : List Char}
    (goes : machine.step = .go token (.between depth pos rest)) :
    machine.step.Resumes machine.text := by
  obtain ⟨taken, whole, _⟩ := Machine.step_takes goes
  refine .inr ⟨token, depth, pos, taken, rest, goes, whole, ?_⟩
  rintro rfl
  have spent := Machine.budget_lt_of_step goes
  have same : machine.text.length = rest.length := congrArg List.length whole
  cases machine with
  | between depth pos text =>
      simp only [Machine.budget, Machine.text] at spent same
      omega
  | inside cls depth pos head tail =>
      simp only [Machine.budget, Machine.text, List.length_cons] at spent same
      omega

/-- A token is entered from between two tokens, on a first character of its class. -/
theorem Machine.entered_of_step {machine : Machine} {token : Option Token} {cls : Class}
    {depth : Nat} {pos : Position} {head : Char} {tail : List Char}
    (goes : machine.step = .go token (.inside cls depth pos head tail)) :
    (∃ depth pos text, machine = .between depth pos text) ∧ Class.of? head tail = some cls := by
  cases machine with
  | between depth pos text =>
      refine ⟨⟨depth, pos, text, rfl⟩, ?_⟩
      rw [Machine.step, atToken.eq_def] at goes
      repeat' split at goes
      all_goals cases goes
      assumption
  | inside cls depth pos head tail =>
      rw [Machine.step] at goes
      split at goes
      · cases goes
      · cases goes

theorem Machine.inside_resumes (cls : Class) (depth : Nat) (pos : Position) (head : Char)
    (tail : List Char) : (Machine.inside cls depth pos head tail).step.Resumes (head :: tail) := by
  cases goes : (Machine.inside cls depth pos head tail).step with
  | stop last => exact .inl ⟨last, rfl⟩
  | go token next =>
      cases next with
      | between =>
          rw [← goes]
          exact Machine.resumes_of_step goes
      | inside =>
          obtain ⟨⟨_, _, _, same⟩, _⟩ := Machine.entered_of_step goes
          cases same

/-- Between two tokens the machine gets on in one step, or in two. -/
def Machine.GetsOn (machine : Machine) : Prop :=
  machine.step.Resumes machine.text ∨
    ∃ token cls depth pos head tail,
      machine.step = .go token (.inside cls depth pos head tail) ∧
        (Machine.inside cls depth pos head tail).step.Resumes machine.text

theorem Machine.between_getsOn (depth : Nat) (pos : Position) (text : List Char) :
    (Machine.between depth pos text).GetsOn := by
  cases goes : (Machine.between depth pos text).step with
  | stop last => exact .inl (.inl ⟨last, goes⟩)
  | go token next =>
      cases next with
      | between => exact .inl (Machine.resumes_of_step goes)
      | inside cls depth' pos' head tail =>
          obtain ⟨gap, whole, _⟩ := Machine.step_takes goes
          refine .inr ⟨token, cls, depth', pos', head, tail, goes, ?_⟩
          rw [whole]
          exact (Machine.inside_resumes cls depth' pos' head tail).append gap

/-! ## At a numeral -/

/-- A token that the lexer is inside of begins with a character of its class. -/
theorem Machine.Reaches.of?_eq {source : String} {given : List Token} {cls : Class} {depth : Nat}
    {pos : Position} {head : Char} {tail : List Char}
    (reached : Machine.Reaches source given (.inside cls depth pos head tail)) :
    Class.of? head tail = some cls := by
  cases reached with
  | step _ goes => exact (Machine.entered_of_step goes).2

/-- What the lexer does on the first character of a numeral.  However the numeral is judged, a
character is taken, and a decimal has a digit. -/
structure SweepsNumeral (depth : Nat) (pos : Position) (head : Char) (tail : List Char)
    (swept : Sweep) : Prop where
  whole : swept.chars ++ swept.rest = head :: tail
  nonempty : swept.chars ≠ []
  digit : hexMark? (sign (head :: tail)).2 = none → 0 < swept.digits
  step : (Machine.inside .numeral depth pos head tail).step =
    if swept.digits = 0 ∨ isBlocked swept.rest = true then
      .stop (some (Objection.illegalNumber.token pos))
    else
      .go (some ⟨.number, String.ofList swept.chars, pos⟩)
        (.between depth (pos.after swept.chars) swept.rest)

theorem sweepsNumeral_of_opens {head : Char} {tail : List Char}
    (opens : Token.Numeral.opens (head :: tail) = true) (depth : Nat) (pos : Position) :
    SweepsNumeral depth pos head tail (sweep (head :: tail)) where
  whole := Token.Numeral.sweep_append _
  nonempty := by
    intro empty
    exact Token.Numeral.chars_ne_nil_of_startsDecimal opens (List.append_eq_nil_iff.mp empty).2
  digit := Token.Numeral.digits_of_startsDecimal opens
  step := by
    rw [Machine.step, Class.read, Token.Numeral.read?_eq_sweep]
    by_cases refused : (sweep (head :: tail)).digits = 0 ∨
        isBlocked (sweep (head :: tail)).rest = true
    · rw [if_pos refused, if_pos refused]
    · rw [if_neg refused, if_neg refused]

end Lexer

open Lexer in
/-- **The lexer always gets on.**  It stops within two steps for each character and one more;
from between two tokens it comes back with less text before it, or stops; and on a numeral, legal
or not, it takes a character. -/
theorem lexer_makes_progress (source : String) :
    (∃ steps ≤ 2 * source.length + 1,
      (Machine.start source).Halts steps (tokenize source)) ∧
    (∀ given depth pos text, Machine.Reaches source given (.between depth pos text) →
      (Machine.between depth pos text).GetsOn) ∧
    ∀ given depth pos head tail,
      Machine.Reaches source given (.inside .numeral depth pos head tail) →
        SweepsNumeral depth pos head tail (Token.Numeral.sweep (head :: tail)) := by
  refine ⟨?_, fun _ depth pos text _ => Machine.between_getsOn depth pos text, ?_⟩
  · obtain ⟨steps, within, halts⟩ := (Machine.start source).exists_halts
    rw [Machine.start, Machine.budget, String.length_toList] at within
    exact ⟨steps, within, halts⟩
  · intro given depth pos head tail reached
    obtain ⟨quoted, _⟩ | ⟨keyword, _⟩ | ⟨_, opens⟩ | ⟨word, _⟩ := Class.of?_cases reached.of?_eq
    · cases quoted
    · cases keyword
    · exact sweepsNumeral_of_opens opens depth pos
    · cases word

open Lexer in
/-- Each of two signs is a word of one character, so no step is saved. -/
example : ∃ tokens, (Machine.start "++").Halts (2 * 2 + 1) tokens :=
  ⟨_, .go rfl (.go rfl (.go rfl (.go rfl (.stop rfl))))⟩

end ColonLisp
