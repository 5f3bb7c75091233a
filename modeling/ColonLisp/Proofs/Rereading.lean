/-
# Proofs.Rereading -- a reader that is asked again

A reader keeps the tokens that it has not taken, so it can be asked for a program any number of
times, after a fault too.  `rereads_iff_endFits`: each reading begins where the one before it
stopped and gives what a new reader would give there.  A reading that objects to a token has
taken one, so there are no more objections than tokens; after a program there are only empty
programs, and after an illegible token there is only its fault.  All this holds of every list of
tokens that has a reader at all.

* `State.leaves` says what one reading can do: how much of its tokens it leaves, by its result.
* A reader that stands at the end or on an illegible token stays there (`read_of_atEnd`,
  `read_of_illegible`), however often it is asked (`after_of_still`).
* By induction on the readings, what is left is always a part at the end of the tokens
  (`suffix_after`), and objections are paid for with tokens (`objections_add_length_le`).
* What is left ends with the token that all of the tokens end with, so a new reader of it runs
  out of tokens where the old one does, and can be made if that one could (`parse?_rest_after`).
-/
import ColonLisp.Node.Reader
import ColonLisp.Token.Lexer

set_option autoImplicit false

namespace ColonLisp.Reader

/-! ## One reading -/

/-- There is no token, or the first one is an `endOfInput` token. -/
def AtEnd (tokens : List Token) : Prop := ∀ t ∈ tokens.head?, t.kind = .endOfInput

/-- What a reading that begins in a state leaves of its tokens, by its result. -/
inductive Leaves (s : State) (tokens : List Token) : Except Fault Node → List Token → Prop where
  | program {program : Node} {rest : List Token} :
      rest <:+ tokens → AtEnd rest → Leaves s tokens (.ok program) rest
  | illegible {t : Token} {rest : List Token} :
      t :: rest <:+ tokens → t.kind = .error →
      Leaves s tokens (.error (.lexical t.pos t.text)) (t :: rest)
  /-- An objection has cost a token, unless the tokens ended at once in an open form. -/
  | objection {pos : Position} {message : String} {rest : List Token} :
      rest <:+ tokens → (s.isComplete = true → rest.length < tokens.length) →
      Leaves s tokens (.error (.syntactic pos message)) rest

namespace Leaves

variable {s : State} {tokens rest : List Token} {result : Except Fault Node}

theorem suffix (leaves : Leaves s tokens result rest) : rest <:+ tokens := by
  cases leaves with
  | program suffix _ | illegible suffix _ | objection suffix _ => exact suffix

theorem atEnd {program : Node} (leaves : Leaves s tokens (.ok program) rest) : AtEnd rest := by
  cases leaves with
  | program _ atEnd => exact atEnd

theorem exists_illegible {pos : Position} {text : String}
    (leaves : Leaves s tokens (.error (.lexical pos text)) rest) :
    ∃ t more, rest = t :: more ∧ t.kind = .error ∧ t.pos = pos ∧ t.text = text := by
  cases leaves with
  | illegible _ kind => exact ⟨_, _, rfl, kind, rfl, rfl⟩

theorem shorter {pos : Position} {message : String}
    (leaves : Leaves s tokens (.error (.syntactic pos message)) rest)
    (complete : s.isComplete = true) : rest.length < tokens.length := by
  cases leaves with
  | objection _ shorter => exact shorter complete

theorem of_finish (s : State) (pos : Position) (atEnd : AtEnd tokens) :
    Leaves s tokens (s.finish pos) tokens := by
  unfold State.finish
  split
  · exact .program List.suffix_rfl atEnd
  · rename_i incomplete
    exact .objection List.suffix_rfl fun complete => absurd complete incomplete

/-- A reading that goes on after a token has taken at least that one. -/
theorem cons {next : State} (t : Token) (leaves : Leaves next tokens result rest) :
    Leaves s (t :: tokens) result rest := by
  have longer := List.suffix_cons t tokens
  cases leaves with
  | program suffix atEnd => exact .program (suffix.trans longer) atEnd
  | illegible suffix kind => exact .illegible (suffix.trans longer) kind
  | objection suffix _ =>
      apply Leaves.objection (suffix.trans longer)
      intro _
      exact Nat.lt_succ_of_le suffix.length_le

end Leaves

theorem State.leaves (stop : Position) (s : State) (tokens : List Token) :
    Leaves s tokens (s.read stop tokens).1 (s.read stop tokens).2 := by
  induction tokens generalizing s with
  | nil =>
      apply Leaves.of_finish s stop
      intro t none
      cases none
  | cons t rest ih =>
      rw [State.read]
      split
      · rename_i ends
        apply Leaves.of_finish s t.pos
        intro first isFirst
        cases isFirst
        exact ends
      · rename_i illegible
        exact .illegible List.suffix_rfl illegible
      · split
        · rename_i next _
          exact (ih next).cons t
        · apply Leaves.objection (List.suffix_cons t rest)
          intro _
          exact Nat.lt_succ_self rest.length

theorem leaves (reader : Reader) : Leaves .start reader.rest reader.read.1 reader.read.2.rest :=
  State.leaves reader.stop .start reader.rest

/-! ## A reader that does not move -/

theorem read_of_atEnd {reader : Reader} (atEnd : AtEnd reader.rest) :
    reader.read = (.ok (.program []), reader) := by
  obtain ⟨rest, stop⟩ := reader
  cases rest with
  | nil => rfl
  | cons t rest =>
      have ends : t.kind = .endOfInput := atEnd t rfl
      simp only [read, State.read, ends]
      rfl

theorem read_of_illegible {reader : Reader} {t : Token} {rest : List Token}
    (here : reader.rest = t :: rest) (illegible : t.kind = .error) :
    reader.read = (.error (.lexical t.pos t.text), reader) := by
  obtain ⟨_, stop⟩ := reader
  cases here
  simp only [read, State.read, illegible]

theorem read_again_of_program {reader : Reader} {program : Node}
    (reads : reader.read.1 = .ok program) :
    reader.read.2.read = (.ok (.program []), reader.read.2) := by
  have leaves := reader.leaves
  rw [reads] at leaves
  exact read_of_atEnd leaves.atEnd

theorem read_again_of_lexical {reader : Reader} {pos : Position} {text : String}
    (fails : reader.read.1 = .error (.lexical pos text)) :
    reader.read.2.read = (.error (.lexical pos text), reader.read.2) := by
  have leaves := reader.leaves
  rw [fails] at leaves
  obtain ⟨t, more, here, kind, rfl, rfl⟩ := leaves.exists_illegible
  exact read_of_illegible here kind

/-! ## Readings in a row -/

/-- The reader after so many readings. -/
def after : Nat → Reader → Reader
  | 0, reader => reader
  | calls + 1, reader => after calls reader.read.2

theorem after_add (reader : Reader) (n more : Nat) :
    reader.after (n + more) = (reader.after n).after more := by
  induction n generalizing reader with
  | zero => rw [Nat.zero_add, after]
  | succ n ih => rw [Nat.succ_add, after, after, ih]

theorem after_succ (reader : Reader) (n : Nat) :
    reader.after (n + 1) = (reader.after n).read.2 :=
  reader.after_add n 1

theorem readTimes_succ (calls : Nat) (reader : Reader) :
    readTimes (calls + 1) reader = reader.read.1 :: readTimes calls reader.read.2 := rfl

theorem readTimes_eq (calls : Nat) (reader : Reader) :
    readTimes calls reader = (List.range calls).map fun n => (reader.after n).read.1 := by
  induction calls generalizing reader with
  | zero => rfl
  | succ calls ih =>
      rw [readTimes_succ, ih, List.range_succ_eq_map, List.map_cons, List.map_map]
      rfl

/-- A reader that a reading does not move is not moved by any number of them. -/
theorem after_of_still {reader : Reader} (still : reader.read.2 = reader) (calls : Nat) :
    reader.after calls = reader := by
  induction calls with
  | zero => rfl
  | succ calls ih => rw [after, still, ih]

/-- If the reading after next gives a result and does not move the reader, so do all that
follow. -/
theorem read_after_of_still {reader : Reader} {n : Nat} {result : Except Fault Node}
    (again : (reader.after n).read.2.read = (result, (reader.after n).read.2)) {later : Nat}
    (follows : n < later) : (reader.after later).read.1 = result := by
  obtain ⟨more, rfl⟩ := Nat.exists_eq_add_of_le follows
  have still : (reader.after n).read.2.read.2 = (reader.after n).read.2 := by rw [again]
  rw [after_add, Nat.succ_eq_add_one, after_succ, after_of_still still, again]

theorem suffix_after (reader : Reader) (calls : Nat) :
    (reader.after calls).rest <:+ reader.rest := by
  induction calls with
  | zero => exact List.suffix_rfl
  | succ calls ih =>
      rw [after_succ]
      exact (leaves _).suffix.trans ih

theorem stop_after (reader : Reader) (calls : Nat) : (reader.after calls).stop = reader.stop := by
  induction calls with
  | zero => rfl
  | succ calls ih =>
      rw [after_succ]
      exact ih

/-- Whether a reading objected to a token, or to the lack of one. -/
def objected : Except Fault Node → Bool
  | .error (.syntactic ..) => true
  | _ => false

theorem exists_of_objected {result : Except Fault Node} (objects : objected result = true) :
    ∃ pos message, result = .error (.syntactic pos message) := by
  unfold objected at objects
  split at objects
  · exact ⟨_, _, rfl⟩
  · cases objects

theorem shorter_of_syntactic {reader : Reader} {pos : Position} {message : String}
    (objects : reader.read.1 = .error (.syntactic pos message)) :
    reader.read.2.rest.length < reader.rest.length := by
  have leaves := reader.leaves
  rw [objects] at leaves
  exact leaves.shorter rfl

/-- Each objection is paid for with a token. -/
theorem objections_add_length_le (calls : Nat) (reader : Reader) :
    (readTimes calls reader).countP objected + (reader.after calls).rest.length ≤
      reader.rest.length := by
  induction calls generalizing reader with
  | zero => simp [readTimes, after]
  | succ calls ih =>
      have later := ih reader.read.2
      rw [readTimes_succ, after, List.countP_cons]
      split
      · rename_i objects
        obtain ⟨pos, message, isObjection⟩ := exists_of_objected objects
        have shorter := shorter_of_syntactic isObjection
        omega
      · have kept := reader.leaves.suffix.length_le
        omega

/-! ## Readings of a list of tokens -/

/-- A part at the end of the tokens ends with the same token as they do. -/
theorem getLast?_of_suffix {rest tokens : List Token} (suffix : rest <:+ tokens)
    (nonempty : rest ≠ []) : rest.getLast? = tokens.getLast? := by
  obtain ⟨front, rfl⟩ := suffix
  have isLast := List.getLast?_eq_some_getLast nonempty
  rw [List.getLast?_append, isLast, Option.some_or]

/-- If the tokens have a reader, then after any number of readings a new reader can be made of
those that are left, and it reads what the old one does. -/
theorem parse?_rest_after {tokens : List Token} (fits : EndFits tokens) (n : Nat) :
    parse? ((mk tokens (endOf tokens)).after n).rest =
      some ((mk tokens (endOf tokens)).after n).read.1 := by
  have suffix : ((mk tokens (endOf tokens)).after n).rest <:+ tokens := suffix_after _ n
  have stop : ((mk tokens (endOf tokens)).after n).stop = endOf tokens := stop_after _ n
  generalize (mk tokens (endOf tokens)).after n = reader at suffix stop ⊢
  by_cases empty : reader.rest = []
  · -- Without tokens no form is left open, so it does not matter where they run out.
    have atEnd : AtEnd reader.rest := by simp [AtEnd, empty]
    rw [read_of_atEnd atEnd, empty]
    rfl
  · have sameLast := getLast?_of_suffix suffix empty
    have restFits : EndFits reader.rest := by
      rw [EndFits, sameLast]
      exact fits
    have sameStop : endOf reader.rest = reader.stop := by rw [endOf, sameLast, stop, endOf]
    rw [parse?_of_endFits restFits, parse, sameStop]

/-- Readings in a row on a reader of the tokens: how many of them are taken before each reading,
and what the readings give. -/
structure Rereads (tokens : List Token) (reader : Reader) (taken : Nat → Nat) : Prop where
  start : taken 0 = 0
  ascends : ∀ n, taken n ≤ taken (n + 1)
  within : ∀ n, taken n ≤ tokens.length
  rest : ∀ n, (reader.after n).rest = tokens.drop (taken n)
  results : ∀ calls, (readTimes calls reader).map some =
    (List.range calls).map fun n => parse? (tokens.drop (taken n))
  progress : ∀ n pos message,
    parse? (tokens.drop (taken n)) = some (.error (.syntactic pos message)) →
    taken n < taken (n + 1)
  settled : ∀ n program, parse? (tokens.drop (taken n)) = some (.ok program) →
    ∀ later, n < later → parse? (tokens.drop (taken later)) = some (.ok (.program []))
  stuck : ∀ n pos text, parse? (tokens.drop (taken n)) = some (.error (.lexical pos text)) →
    ∀ later, n < later →
      parse? (tokens.drop (taken later)) = some (.error (.lexical pos text))
  objections : ∀ calls, (readTimes calls reader).countP objected ≤ tokens.length

theorem exists_rereads {tokens : List Token} (fits : EndFits tokens) :
    ∃ taken, Rereads tokens ⟨tokens, endOf tokens⟩ taken := by
  let reader (n : Nat) : Reader := (mk tokens (endOf tokens)).after n
  let taken (n : Nat) : Nat := tokens.length - (reader n).rest.length
  have suffix : ∀ n, (reader n).rest <:+ tokens := suffix_after _
  have counted : ∀ n, taken n + (reader n).rest.length = tokens.length :=
    fun n => Nat.sub_add_cancel (suffix n).length_le
  have rest : ∀ n, (reader n).rest = tokens.drop (taken n) :=
    fun n => List.suffix_iff_eq_drop.mp (suffix n)
  have moves : ∀ n, reader (n + 1) = (reader n).read.2 := after_succ _
  have results : ∀ n, parse? (tokens.drop (taken n)) = some (reader n).read.1 := by
    intro n
    rw [← rest]
    exact parse?_rest_after fits n
  refine ⟨taken, ?_, ?_, ?_, rest, ?_, ?_, ?_, ?_, ?_⟩
  · exact Nat.sub_self tokens.length
  · intro n
    have kept := (reader n).leaves.suffix.length_le
    have here := counted n
    have next := counted (n + 1)
    rw [moves] at next
    omega
  · intro n
    have here := counted n
    omega
  · intro calls
    rw [readTimes_eq, List.map_map]
    exact List.map_congr_left fun n _ => (results n).symm
  · intro n pos message objects
    rw [results, Option.some_inj] at objects
    have shorter := shorter_of_syntactic objects
    have here := counted n
    have next := counted (n + 1)
    rw [moves] at next
    omega
  · intro n program reads later follows
    rw [results, Option.some_inj] at reads ⊢
    exact read_after_of_still (read_again_of_program reads) follows
  · intro n pos text fails later follows
    rw [results, Option.some_inj] at fails ⊢
    exact read_after_of_still (read_again_of_lexical fails) follows
  · intro calls
    have paid := objections_add_length_le calls ⟨tokens, endOf tokens⟩
    exact Nat.le_trans (Nat.le_add_right _ _) paid

/-- **A reader that is asked again goes on where it stopped, and settles.**  The tokens have such
a reader exactly if the place where they run out has a column that fits in a word. -/
theorem rereads_iff_endFits (tokens : List Token) :
    (∃ reader taken, ofTokens tokens = some reader ∧ Rereads tokens reader taken) ↔
      EndFits tokens := by
  constructor
  · rintro ⟨reader, _, made, _⟩
    exact .of_ofTokens made
  · intro fits
    obtain ⟨taken, rereads⟩ := exists_rereads fits
    exact ⟨_, taken, ofTokens_of_endFits fits, rereads⟩

/-- A name in the last column that there is: it has no reader that could be asked even once. -/
theorem unreadable_in_last_column :
    let name : Token := ⟨.identifier, "x", ⟨1, 18446744073709551615⟩⟩
    name.pos.column < UInt64.size ∧ ofTokens [name] = none ∧
      ¬ ∃ reader taken, ofTokens [name] = some reader ∧ Rereads [name] reader taken := by
  intro name
  have overflows : ¬ EndFits [name] := by decide
  refine ⟨by decide, ofTokens_eq_none_iff.mpr overflows, ?_⟩
  rintro ⟨reader, _, made, _⟩
  exact overflows (.of_ofTokens made)

example : readTimes 4 ⟨tokenize "(a) b", endOf (tokenize "(a) b")⟩ =
    [.error (.syntactic ⟨1, 2⟩ "function call are not yet supported"),
      .error (.syntactic ⟨1, 3⟩ "unsupported expression"), .ok (.program [.ref "b"]),
      .ok (.program [])] := rfl

end ColonLisp.Reader
