/-
# Proofs.RunningOut -- where the tokens run out

A reading that has taken all of its tokens and still awaits one fails just after the last of
them.  That place is a sum of two numbers, kept in a 64-bit word: the column of the last token
and the length of its text.  The sum is taken when the reader is made, and tokens need not come
from a source text, so it need not fit.  `fault_at_end_of_tokens`: if the sum fits, the fault
stands there and not before the last token; if it does not, there is no reader and no fault.

* The readings that fail there are those of tokens that begin a program and are none
  (`failsAtEnd_iff`): a reading that does not take all of its tokens ends at one of them, and
  does not ask where they run out (`State.reads_or_ends`).
* The tokens of a source end hardly later than the source does (`Lexes.column_add_length_le`,
  by induction on the derivation), so `parse` reads them as a reader made for them would
  (`parse?_tokenize`).
-/
import ColonLisp.Proofs.EarliestFault
import ColonLisp.Proofs.Strictness

set_option autoImplicit false

namespace ColonLisp

/-! ## Readings that run out of tokens -/

namespace Reader

/-- The reading fails where the tokens run out: wherever that is, there is the fault. -/
def FailsAtEnd (tokens : List Token) : Prop :=
  ∃ why : Objection, ∀ stop, (Reader.mk tokens stop).read.1 = .error (why.fault stop)

/-- A reading takes all of its tokens, or what it gives does not depend on where they run out. -/
theorem State.reads_or_ends (s : State) (tokens : List Token) :
    (∃ last, Reads s tokens last) ∨ ∃ result, ∀ stop, (s.read stop tokens).1 = result := by
  induction tokens generalizing s with
  | nil => exact .inl ⟨s, .nil⟩
  | cons t rest ih =>
      by_cases ends : t.kind = .endOfInput
      · refine .inr ⟨s.finish t.pos, fun stop => ?_⟩
        rw [State.read]
        simp only [ends]
      by_cases illegible : t.kind = .error
      · exact .inr ⟨_, fun stop => (Refuses.illegible illegible).read_eq stop rest⟩
      cases accepted : s.accept t with
      | error why =>
          have refuses : Refuses s t _ := .objection illegible ends accepted
          exact .inr ⟨_, fun stop => refuses.read_eq stop rest⟩
      | ok next =>
          have step : Step s t next := .of_accept accepted
          rcases ih next with ⟨last, run⟩ | ⟨result, same⟩
          · exact .inl ⟨last, .cons step run⟩
          · refine .inr ⟨result, fun stop => ?_⟩
            have later := (Reads.single step).read_eq stop rest
            rw [List.singleton_append] at later
            rw [later, same]

/-- A reading fails where the tokens run out exactly if they begin a program and are none. -/
theorem failsAtEnd_iff {tokens : List Token} :
    FailsAtEnd tokens ↔ Viable tokens ∧ ∀ nodes, ¬ SpellsAll tokens nodes := by
  constructor
  · rintro ⟨why, fails⟩
    rcases State.start.reads_or_ends tokens with ⟨last, run⟩ | ⟨result, same⟩
    · refine ⟨viable_iff_reads.mpr ⟨last, run⟩, fun nodes spelled => ?_⟩
      cases (fails _).symm.trans spelled.parse_eq
    · -- One result cannot be a fault at two places.
      have here := (same ⟨1, 1⟩).symm.trans (fails ⟨1, 1⟩)
      have there := (same ⟨1, 2⟩).symm.trans (fails ⟨1, 2⟩)
      cases here.symm.trans there
  · rintro ⟨viable, unfinished⟩
    obtain ⟨last, run⟩ := viable_iff_reads.mp viable
    have lacking : last.isComplete = false := by
      refine Bool.eq_false_iff.mpr fun complete => ?_
      exact unfinished _ ((Consumed.start.reads run).spellsAll complete)
    refine ⟨last.focus.missing, fun stop => ?_⟩
    have read := run.read_eq stop []
    rw [List.append_nil] at read
    simp [Reader.read, read, State.read, State.finish, lacking]

/-- A reading of nothing does not fail. -/
theorem FailsAtEnd.exists_getLast? {tokens : List Token} (fails : FailsAtEnd tokens) :
    ∃ last, tokens.getLast? = some last := by
  cases isLast : tokens.getLast? with
  | some last => exact ⟨last, rfl⟩
  | none =>
      rw [List.getLast?_eq_none_iff] at isLast
      subst isLast
      exact absurd .nil ((failsAtEnd_iff.mp fails).2 [])

end Reader

/-- **Where the fault stands if the tokens run out.**  It stands right after the last token and
not before it, exactly if the column of that place fits in a word.  Otherwise the tokens have no
reader, and nothing is reported. -/
theorem fault_at_end_of_tokens {tokens : List Token} (fails : Reader.FailsAtEnd tokens) :
    ∃ (last : Token) (place : Position), tokens.getLast? = some last ∧
      place = ⟨last.pos.line, last.pos.column + last.text.length⟩ ∧ ¬ place.Before last.pos ∧
      ((∃ message, parse? tokens = some (.error (.syntactic place message))) ↔
        last.pos.column + last.text.length < UInt64.size) ∧
      (parse? tokens = none ↔ UInt64.size ≤ last.pos.column + last.text.length) := by
  obtain ⟨last, isLast⟩ := fails.exists_getLast?
  obtain ⟨why, fails⟩ := fails
  have place : Reader.endOf tokens = last.endPos := by simp [Reader.endOf, isLast]
  have failed : parse tokens = .error (why.fault last.endPos) := by
    rw [parse, place]
    exact fails last.endPos
  refine ⟨last, last.endPos, isLast, rfl, ?_, ?_, ?_⟩
  · rintro (above | ⟨_, left⟩)
    · exact Nat.lt_irrefl _ above
    · exact Nat.not_lt.mpr (Nat.le_add_right _ _) left
  · rw [← Reader.endFits_iff_of_getLast? isLast]
    constructor
    · rintro ⟨_, reported⟩
      exact (parse?_eq_some_iff.mp reported).1
    · intro fits
      exact ⟨why.message, parse?_eq_some_iff.mpr ⟨fits, failed⟩⟩
  · rw [parse?_eq_none_iff, Reader.endFits_iff_of_getLast? isLast, Nat.not_lt]

/-- A word that ends right before the last column that there is. -/
theorem fault_in_last_column :
    let paren : Token := ⟨.leftParen, "(", ⟨1, 1⟩⟩
    let define : Token := ⟨.define, ":define", ⟨3, 18446744073709551608⟩⟩
    Reader.FailsAtEnd [paren, define] ∧
      ∃ place message, parse? [paren, define] = some (.error (.syntactic place message)) ∧
        place = ⟨3, 18446744073709551615⟩ ∧ ¬ place.Before define.pos := by
  intro paren define
  have fails : Reader.FailsAtEnd [paren, define] := ⟨.missingName, fun _ => rfl⟩
  obtain ⟨last, place, isLast, isPlace, notBefore, reported_iff, _⟩ :=
    fault_at_end_of_tokens fails
  have same : define = last := Option.some.inj isLast
  subst same
  have fits : define.pos.column + define.text.length < UInt64.size := by decide
  have inColumn : Position.mk define.pos.line (define.pos.column + define.text.length) =
      ⟨3, 18446744073709551615⟩ := by decide
  obtain ⟨message, reported⟩ := reported_iff.mpr fits
  exact ⟨fails, place, message, reported, isPlace.trans inColumn, notBefore⟩

/-- A parenthesis in the last column that there is: the reading would fail after it, where no
column is, so no fault is reported at any place. -/
theorem fault_after_last_column :
    let paren : Token := ⟨.leftParen, "(", ⟨1, 18446744073709551615⟩⟩
    paren.pos.column < UInt64.size ∧ Reader.FailsAtEnd [paren] ∧ parse? [paren] = none ∧
      ¬ ∃ place message, parse? [paren] = some (.error (.syntactic place message)) := by
  intro paren
  have overflows : ¬ Reader.EndFits [paren] := by decide
  refine ⟨by decide, ⟨.missingHead, fun _ => rfl⟩, parse?_eq_none_iff.mpr overflows, ?_⟩
  rintro ⟨place, message, reported⟩
  exact overflows (parse?_eq_some_iff.mp reported).1

/-! ## The tokens of a source -/

theorem Position.column_after_le (pos : Position) (text : List Char) :
    (pos.after text).column ≤ pos.column + text.length := by
  induction text generalizing pos with
  | nil => exact Nat.le_refl _
  | cons c text ih =>
      have later := ih (pos.step c)
      have once : (pos.step c).column ≤ pos.column + 1 := by
        unfold step
        split
        · exact Nat.le_add_left 1 _
        · exact Nat.le_refl _
      rw [after_cons, List.length_cons]
      omega

namespace Lexer

/-- A diagnostic is short, apart from a word of the text that it may repeat. -/
theorem Objects.length_message_le {depth : Nat} {text : List Char} {why : Objection}
    (objects : Objects depth text why) : why.message.length ≤ text.length + 23 := by
  cases objects with
  | unclosed | unopened | unterminated | numeral => exact Nat.le_add_left_of_le (by decide)
  | @unreserved rest =>
      let word := rest.takeWhile isWordChar
      have shorter : word.length ≤ rest.length := (List.takeWhile_sublist isWordChar).length_le
      calc (Objection.unexpectedKeyword (String.ofList word)).message.length
          = 20 + (String.ofList word).length := String.length_append "unexpected keyword: " _
        _ = 20 + word.length := by rw [String.length_ofList]
        _ ≤ rest.length + 1 + 23 := by omega
  | @stranger c rest =>
      calc (Objection.unexpectedCharacter c).message.length
          = 22 + (String.singleton c).length := String.length_append "unexpected character: " _
        _ = 23 := by rw [String.length_singleton]
        _ ≤ rest.length + 1 + 23 := Nat.le_add_left _ _

/-- A token ends within the text, except for what its diagnostic adds.  The induction is on the
tokens, one turn of the lexer for each. -/
theorem Lexes.column_add_length_le {tokens : List Token} {depth : Nat} {pos : Position}
    {text : List Char} (lexed : Lexes depth pos text tokens) :
    ∀ t ∈ tokens, t.pos.column + t.text.length ≤ pos.column + text.length + 23 := by
  induction tokens generalizing depth pos text with
  | nil => simp
  | cons t tokens ih =>
      obtain ⟨gap, rest, rfl, _, _, turn⟩ := lexed.turn
      have gapColumn := pos.column_after_le gap
      rw [List.length_append]
      cases turn with
      | @objects _ why objects =>
          have message := objects.length_message_le
          refine List.forall_mem_singleton.mpr ?_
          change (pos.after gap).column + why.message.length ≤ _
          omega
      | @token _ rest _ _ place _ _ later =>
          have column := (pos.after gap).column_after_le t.text.toList
          rw [String.length_toList] at column
          rw [List.length_append, String.length_toList]
          refine List.forall_mem_cons.mpr ⟨?_, fun t member => ?_⟩
          · rw [place]
            omega
          · have ends := ih later t member
            omega

end Lexer

/-- The tokens of a source have a reader, unless the source is about as long as a word can
count. -/
theorem Reader.endFits_tokenize {source : String} (short : source.length + 24 < UInt64.size) :
    EndFits (tokenize source) := by
  intro last isLast
  have ends := (Lexer.lexes_tokenize source).column_add_length_le last (List.mem_of_getLast? isLast)
  have first : Position.start.column = 1 := rfl
  rw [String.length_toList] at ends
  omega

/-- So the tokens of a source are read alike by `parse` and by a reader made for them. -/
theorem parse?_tokenize {source : String} (short : source.length + 24 < UInt64.size) :
    parse? (tokenize source) = some (parse (tokenize source)) :=
  parse?_of_endFits (Reader.endFits_tokenize short)

end ColonLisp
