/-
# Proofs.EarliestFault -- a fault is met at the first token that cannot be right

Tokens are `Viable` if some tokens after them make a list that the grammar spells.
`parse_error_is_earliest`: if tokens do not parse, the fault is met right after a viable
part of them.  Either the next token makes that part unviable, and then the fault names
that token and no later token has a say in it, except that a last one may leave no reader
that could meet the fault; or no token is left, and then the fault stands where the tokens
run out.

* The reader never runs into a dead end: every state, whatever forms are open in it, can be
  led to a complete one (`State.completable`, by induction on the open forms).  So the
  viable token lists are those that the reader can take (`viable_iff_reads`).
* A reading that fails took some tokens, and then refused one or ran out
  (`reads_of_read_eq_error`).  A token that is refused allows no step
  (`Refuses.not_step`), and it is refused alike whatever follows it
  (`Refuses.read_eq`).
-/
import ColonLisp.Proofs.Grammar
import ColonLisp.Token.Lexer

set_option autoImplicit false

namespace ColonLisp

/-- The tokens begin some token list that the grammar spells. -/
def Viable (tokens : List Token) : Prop :=
  ∃ more nodes, SpellsAll (tokens ++ more) nodes

namespace Reader

/-! ## Runs -/

/-- A token leads to one state at most. -/
theorem Step.unique {s next other : State} {t : Token} (step : Step s t next)
    (again : Step s t other) : next = other := by
  have same := step.accept_eq.symm.trans again.accept_eq
  exact Except.ok.inj same

theorem Reads.of_append {s last : State} {front back : List Token}
    (run : Reads s (front ++ back) last) :
    ∃ middle, Reads s front middle ∧ Reads middle back last := by
  induction front generalizing s with
  | nil => exact ⟨s, .nil, run⟩
  | cons t front ih =>
      cases run with
      | cons step run =>
          obtain ⟨middle, first, second⟩ := ih run
          exact ⟨middle, .cons step first, second⟩

theorem Reads.unique {s last other : State} {tokens : List Token} (run : Reads s tokens last)
    (again : Reads s tokens other) : last = other := by
  induction run with
  | nil =>
      cases again
      rfl
  | cons step _ ih =>
      cases again with
      | cons step' again =>
          cases step.unique step'
          exact ih again

/-- A reading goes on from where a run of steps has led it. -/
theorem Reads.read_eq {s middle : State} {front : List Token} (run : Reads s front middle)
    (stop : Position) (rest : List Token) :
    s.read stop (front ++ rest) = middle.read stop rest := by
  induction run with
  | nil => rfl
  | cons step _ ih =>
      obtain ⟨noEnd, legible⟩ := step.kind_ne
      rw [← ih, List.cons_append, State.read, step.accept_eq]
      split
      · contradiction
      · contradiction
      · rfl

/-! ## Every state can be completed -/

/-- Some tokens lead from the state to a complete one. -/
def State.Completable (s : State) : Prop :=
  ∃ tokens last, Reads s tokens last ∧ last.isComplete = true

theorem Step.completable {s next : State} {t : Token} (step : Step s t next)
    (completable : next.Completable) : s.Completable := by
  obtain ⟨tokens, last, run, complete⟩ := completable
  exact ⟨t :: tokens, last, .cons step run, complete⟩

/-- Any name will do where an expression is awaited. -/
theorem State.completable_of_fill {done : List Node} {holes : List Hole}
    (filled : ∀ node, (State.fill ⟨done, holes, .expression⟩ node).Completable) :
    State.Completable ⟨done, holes, .expression⟩ := by
  let name : Token := ⟨.identifier, "x", .start⟩
  have step : Step ⟨done, holes, .expression⟩ name _ := .atom rfl (.ref rfl)
  exact step.completable (filled (.ref name.text))

theorem State.completable_of_close {done : List Node} {holes : List Hole} {form : Node}
    (filled : (State.fill ⟨done, holes, .close form⟩ form).Completable) :
    State.Completable ⟨done, holes, .close form⟩ := by
  let paren : Token := ⟨.rightParen, ")", .start⟩
  have step : Step ⟨done, holes, .close form⟩ paren _ := .closing rfl rfl
  exact step.completable filled

/-- Whatever is open can be closed: the forms are completed from the inside out. -/
theorem State.completable_fill (holes : List Hole) (done : List Node) (focus : Focus)
    (node : Node) : (State.fill ⟨done, holes, focus⟩ node).Completable := by
  induction holes generalizing done focus node with
  | nil => exact ⟨[], _, .nil, rfl⟩
  | cons hole outer ih =>
      have close : ∀ form, State.Completable ⟨done, outer, .close form⟩ :=
        fun form => completable_of_close (ih done _ form)
      have onFalse : ∀ condition onTrue,
          State.Completable ⟨done, .onFalse condition onTrue :: outer, .expression⟩ :=
        fun _ _ => completable_of_fill fun _ => close _
      cases hole with
      | value name => exact close _
      | condition => exact completable_of_fill fun _ => onFalse _ _
      | onTrue condition => exact onFalse _ _
      | onFalse condition onTrue => exact close _

/-- No state is a dead end. -/
theorem State.completable (s : State) : s.Completable := by
  have expression : ∀ done holes, State.Completable ⟨done, holes, .expression⟩ :=
    fun done holes => completable_of_fill (completable_fill holes done _)
  obtain ⟨done, holes, focus⟩ := s
  cases focus with
  | expression => exact expression done holes
  | head =>
      let keyword : Token := ⟨.conditional, ":if", .start⟩
      have step : Step ⟨done, holes, .head⟩ keyword _ := .conditional rfl rfl
      exact step.completable (expression done _)
  | name =>
      let name : Token := ⟨.identifier, "x", .start⟩
      have step : Step ⟨done, holes, .name⟩ name _ := .name rfl rfl
      exact step.completable (expression done _)
  | close form => exact completable_of_close (completable_fill holes done _ form)

/-- The viable token lists are those that the reader can take. -/
theorem viable_iff_reads {tokens : List Token} :
    Viable tokens ↔ ∃ s, Reads State.start tokens s := by
  constructor
  · rintro ⟨more, nodes, spelled⟩
    obtain ⟨middle, run, _⟩ := (Reads.of_spellsAll spelled []).of_append
    exact ⟨middle, run⟩
  · rintro ⟨s, run⟩
    obtain ⟨more, last, completion, complete⟩ := s.completable
    exact ⟨more, _, (Consumed.start.reads (run.append completion)).spellsAll complete⟩

/-! ## Readings that fail -/

/-- In the state, the token ends the reading in the fault. -/
inductive Refuses (s : State) (t : Token) : Fault → Prop where
  | illegible : t.kind = .error → Refuses s t (.lexical t.pos t.text)
  | objection {why : Objection} :
      t.kind ≠ .error → t.kind ≠ .endOfInput → s.accept t = .error why →
      Refuses s t (.syntactic t.pos why.message)

theorem Refuses.not_step {s next : State} {t : Token} {fault : Fault}
    (refuses : Refuses s t fault) : ¬ Step s t next := by
  intro step
  cases refuses with
  | illegible kind => exact step.kind_ne.2 kind
  | objection _ _ objects =>
      rw [step.accept_eq] at objects
      cases objects

/-- What follows a token that is refused does not matter. -/
theorem Refuses.read_eq {s : State} {t : Token} {fault : Fault} (refuses : Refuses s t fault)
    (stop : Position) (rest : List Token) : (s.read stop (t :: rest)).1 = .error fault := by
  cases refuses with
  | illegible kind =>
      rw [State.read]
      simp only [kind]
  | objection legible noEnd objects =>
      rw [State.read, objects]
      split
      · contradiction
      · contradiction
      · rfl

/-- A reading that fails took some tokens, and then refused one or ran out of them. -/
theorem reads_of_read_eq_error {stop : Position} {s : State} {tokens : List Token}
    {fault : Fault} (noEnd : ∀ t ∈ tokens, t.kind ≠ .endOfInput)
    (failed : (s.read stop tokens).1 = .error fault) :
    (∃ front t rest middle, tokens = front ++ t :: rest ∧ Reads s front middle ∧
        Refuses middle t fault) ∨
      ∃ last, Reads s tokens last ∧ fault = .syntactic stop last.focus.missing.message := by
  induction tokens generalizing s with
  | nil =>
      refine .inr ⟨s, .nil, ?_⟩
      rw [State.read, State.finish] at failed
      split at failed
      · cases failed
      · cases failed
        rfl
  | cons t rest ih =>
      obtain ⟨goesOn, noEnd⟩ := List.forall_mem_cons.mp noEnd
      by_cases illegible : t.kind = .error
      · rw [(Refuses.illegible illegible).read_eq] at failed
        cases failed
        exact .inl ⟨[], t, rest, s, rfl, .nil, .illegible illegible⟩
      cases accepted : s.accept t with
      | error why =>
          have refuses : Refuses s t _ := .objection illegible goesOn accepted
          rw [refuses.read_eq] at failed
          cases failed
          exact .inl ⟨[], t, rest, s, rfl, .nil, refuses⟩
      | ok next =>
          have step : Step s t next := .of_accept accepted
          have later : (next.read stop rest).1 = .error fault := by
            rw [← (Reads.single step).read_eq]
            exact failed
          rcases ih noEnd later with
            ⟨front, refused, after, middle, rfl, run, refuses⟩ | ⟨last, run, rfl⟩
          · exact .inl ⟨t :: front, refused, after, middle, rfl, .cons step run, refuses⟩
          · exact .inr ⟨last, .cons step run, rfl⟩

/-- A token that the reader refuses after a viable part makes it unviable. -/
theorem Refuses.not_viable {front : List Token} {middle : State} {t : Token} {fault : Fault}
    (run : Reads State.start front middle) (refuses : Refuses middle t fault) :
    ¬ Viable (front ++ [t]) := by
  intro viable
  obtain ⟨s, longer⟩ := viable_iff_reads.mp viable
  obtain ⟨other, again, last⟩ := longer.of_append
  cases run.unique again
  cases last with
  | cons step _ => exact refuses.not_step step

end Reader

/-! ## The fault of a parse -/

/-- The fault of tokens that do not parse is met at index `i`, and could not be met before:
the tokens before `i` are viable.  At a token, the fault is decided by the tokens up to that
one, whatever follows for which there is a reader; at the end, it stands where the tokens run
out. -/
structure MetAt (tokens : List Token) (fault : Fault) (i : Nat) : Prop where
  within : i ≤ tokens.length
  viable : Viable (tokens.take i)
  not_viable : i < tokens.length → ¬ Viable (tokens.take (i + 1))
  lexical : ∀ inside : i < tokens.length, tokens[i].kind = .error →
    fault = .lexical tokens[i].pos tokens[i].text
  syntactic : ∀ inside : i < tokens.length, tokens[i].kind ≠ .error →
    ∃ why : Reader.Objection, fault = .syntactic tokens[i].pos why.message
  settled : i < tokens.length → ∀ other : List Token,
    other.take (i + 1) = tokens.take (i + 1) →
      (parse? other = some (.error fault) ↔ Reader.EndFits other) ∧
        (parse? other = none ↔ ¬ Reader.EndFits other)
  exhausted : i = tokens.length →
    ∃ why : Reader.Objection, fault = .syntactic (Reader.endOf tokens) why.message

/-- A token that is refused is where the fault is met. -/
theorem MetAt.of_refuses {front rest : List Token} {t : Token} {middle : Reader.State}
    {fault : Fault} (run : Reader.Reads .start front middle)
    (refuses : Reader.Refuses middle t fault) : MetAt (front ++ t :: rest) fault front.length := by
  have found : (front ++ t :: rest)[front.length]? = some t := by simp
  have upTo : (front ++ t :: rest).take (front.length + 1) = front ++ [t] :=
    List.take_length_add_append 1
  refine ⟨by simp, ?_, fun _ => ?_, fun inside illegible => ?_, fun inside legible => ?_,
    fun _ other agrees => ?_, fun atEnd => ?_⟩
  · rw [List.take_left]
    exact Reader.viable_iff_reads.mpr ⟨middle, run⟩
  · rw [upTo]
    exact refuses.not_viable run
  · have same := (List.getElem_eq_iff inside).mpr found
    rw [same] at illegible ⊢
    cases refuses with
    | illegible => rfl
    | objection legible => exact absurd illegible legible
  · have same := (List.getElem_eq_iff inside).mpr found
    rw [same] at legible ⊢
    cases refuses with
    | illegible illegible => exact absurd illegible legible
    | objection => exact ⟨_, rfl⟩
  · have split : other = front ++ t :: other.drop (front.length + 1) := by
      rw [upTo] at agrees
      have whole := List.take_append_drop (front.length + 1) other
      rw [agrees, List.append_assoc] at whole
      exact whole.symm
    have failed : parse other = .error fault := by
      rw [split, parse, Reader.read, run.read_eq]
      exact refuses.read_eq _ _
    refine ⟨?_, parse?_eq_none_iff⟩
    rw [parse?_eq_some_iff]
    exact and_iff_left failed
  · simp at atEnd

/-- **A fault is met at the first token that cannot be right**, or where the tokens run
out. -/
theorem parse_error_is_earliest {tokens : List Token} {fault : Fault}
    (noEnd : ∀ t ∈ tokens, t.kind ≠ .endOfInput)
    (failed : parse? tokens = some (.error fault)) : ∃ i, MetAt tokens fault i := by
  rcases Reader.reads_of_read_eq_error noEnd (parse?_eq_some_iff.mp failed).2 with
    ⟨front, t, rest, middle, rfl, run, refuses⟩ | ⟨last, run, rfl⟩
  · exact ⟨front.length, .of_refuses run refuses⟩
  · have viable : Viable tokens := Reader.viable_iff_reads.mpr ⟨last, run⟩
    refine ⟨tokens.length, Nat.le_refl _, ?_, ?_, ?_, ?_, ?_, fun _ => ⟨_, rfl⟩⟩
    · rwa [List.take_length]
    all_goals exact fun inside => absurd inside (Nat.lt_irrefl _)

/-- A form that is closed too early, met at the parenthesis, and a form that is never
closed, met after the last token. -/
theorem earliest_of_early_close_and_of_open_form :
    (∃ i, MetAt (tokenize "(:if a (:define b \"c\"))")
        (.syntactic ⟨1, 23⟩ "unsupported expression") i) ∧
      ∃ i, MetAt [⟨.leftParen, "(", ⟨1, 1⟩⟩, ⟨.define, ":define", ⟨1, 2⟩⟩]
        (.syntactic ⟨1, 9⟩ "expected definition name") i := by
  constructor
  · exact parse_error_is_earliest (by decide) (parse?_eq_some_iff.mpr ⟨by decide, rfl⟩)
  · exact parse_error_is_earliest (by decide) (parse?_eq_some_iff.mpr ⟨by decide, rfl⟩)

/-- A parenthesis that closes nothing is the fault of a list, and no fault of the list that
goes on with a name in the last column: nothing reads that one. -/
theorem fault_unsettled_by_last_column :
    let paren : Token := ⟨.rightParen, ")", ⟨1, 1⟩⟩
    let name : Token := ⟨.identifier, "x", ⟨1, 18446744073709551615⟩⟩
    parse? [paren] = some (.error (.syntactic ⟨1, 1⟩ "unsupported expression")) ∧
      ¬ Viable [paren] ∧ [paren, name].take 1 = [paren].take 1 ∧ parse? [paren, name] = none := by
  intro paren name
  have refuses : Reader.Refuses .start paren
      (.syntactic paren.pos Reader.Objection.unsupportedExpression.message) :=
    .objection (by decide) (by decide) rfl
  have read : parse? [paren] = some (.error (.syntactic ⟨1, 1⟩ "unsupported expression")) :=
    parse?_eq_some_iff.mpr ⟨by decide, rfl⟩
  have unread : parse? [paren, name] = none := parse?_eq_none_iff.mpr (by decide)
  exact ⟨read, refuses.not_viable .nil, rfl, unread⟩

end ColonLisp
