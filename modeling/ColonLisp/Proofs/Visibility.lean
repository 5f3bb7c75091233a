/-
# Proofs.Visibility -- names that are bound before they are used are found

`run_finds_bound_names`: a program in which every name that a statement mentions is visible from
the start, or is defined by an earlier statement, never ends with a name that is not found.  And
if a run does end so, the name was not visible from the start, some statement mentions it, and no
statement before that one is its definition.  This is so for every session and every sink.

The first half follows from the second, which is about the place where the run stopped.  There
the name was not visible.  What was visible once stays visible, because evaluation only adds
definitions (`Environment.Grows.contains`), so the name was not visible before either; and a
definition that was passed has made its name visible (`contains_of_eval_definition`), so none was
passed that defines it.

`MissesOnly` states this of one action in one session.  It is carried along by composing actions
(`MissesOnly.bind`), and the induction is on the node: a reference misses its own name, and a
list of statements misses a name at its first statement or after it.
-/
import ColonLisp.Proofs.Frame
import ColonLisp.Proofs.Scoping

set_option autoImplicit false

namespace ColonLisp

/-! ## What is visible -/

namespace Environment

theorem contains_define {env : Environment} {name : String} {value : Node} {other : String} :
    (env.define name value).contains other = true ↔ name = other ∨ env.contains other = true := by
  rw [contains, find?_define, contains]
  by_cases same : name = other
  · simp [same]
  · simp [same]

/-- What is visible stays visible when names are defined. -/
theorem Grows.contains {names : String → Prop} {env grown : Environment}
    (grows : Grows names env grown) {name : String} (visible : env.contains name = true) :
    grown.contains name = true := by
  induction grows with
  | refl => exact visible
  | define value _ _ ih => exact contains_define.mpr (.inr ih)

end Environment

/-! ## Names that are used -/

/-- Inside the node stands a reference to the name. -/
inductive Node.Mentions (name : String) : Node → Prop where
  | here : Mentions name (.ref name)
  | value {other : String} {value : Node} :
      Mentions name value → Mentions name (.definition other value)
  | condition {condition onTrue onFalse : Node} :
      Mentions name condition → Mentions name (.conditional condition onTrue onFalse)
  | onTrue {condition onTrue onFalse : Node} :
      Mentions name onTrue → Mentions name (.conditional condition onTrue onFalse)
  | onFalse {condition onTrue onFalse : Node} :
      Mentions name onFalse → Mentions name (.conditional condition onTrue onFalse)
  | statement {statements : List Node} {statement : Node} :
      statement ∈ statements → Mentions name statement → Mentions name (.program statements)

/-- Every name that a statement mentions is visible in the environment, or an earlier statement
is its definition. -/
def BoundBeforeUse (env : Environment) (statements : List Node) : Prop :=
  ∀ front statement rest, statements = front ++ statement :: rest →
    ∀ name, statement.Mentions name →
      env.contains name = true ∨ ∃ value, .definition name value ∈ front

/-- Some statement mentions the name, and no earlier statement is its definition. -/
def UsesUnbound (name : String) (statements : List Node) : Prop :=
  ∃ front statement rest, statements = front ++ statement :: rest ∧
    statement.Mentions name ∧ ∀ value, .definition name value ∉ front

theorem UsesUnbound.here {name : String} {statement : Node} (mentions : statement.Mentions name)
    (rest : List Node) : UsesUnbound name (statement :: rest) :=
  ⟨[], statement, rest, rfl, mentions, fun _ => List.not_mem_nil⟩

theorem UsesUnbound.later {name : String} {first : Node} {rest : List Node}
    (other : ∀ value, first ≠ .definition name value) (uses : UsesUnbound name rest) :
    UsesUnbound name (first :: rest) := by
  obtain ⟨front, statement, rest, rfl, mentions, undefined⟩ := uses
  refine ⟨first :: front, statement, rest, rfl, mentions, fun value member => ?_⟩
  rcases List.mem_cons.mp member with same | inFront
  · exact other value same.symm
  · exact undefined value inFront

/-! ## What an action misses -/

variable {σ α β : Type}

/-- If a name that is not found ends the action, the name is of the class, and it was not
visible in the session. -/
def MissesOnly (names : String → Prop) (s : Session σ) (action : Run σ α) : Prop :=
  ∀ name, (action.run s).1 = .error (.undefinedVariable name) →
    names name ∧ s.env.contains name = false

namespace MissesOnly

variable {names : String → Prop} {s : Session σ}

theorem pure (value : α) : MissesOnly names s (Pure.pure value : Run σ α) := by
  intro name missed
  cases missed

theorem mismatch (expected got : String) :
    MissesOnly names s (MonadExcept.throw (.typeMismatch expected got) : Run σ α) := by
  intro name missed
  cases missed

/-- The second action starts in the session that the first one left.  What is not visible there
was not visible before. -/
theorem bind {first : Run σ α} {next : α → Run σ β}
    (binds : BindsOnly (fun _ => True) first) (before : MissesOnly names s first)
    (after : ∀ value middle, first.run s = (.ok value, middle) →
      MissesOnly names middle (next value)) :
    MissesOnly names s (first >>= next) := by
  intro name missed
  have grows := binds s
  rw [Run.run_bind] at missed
  generalize ran : first.run s = ended at missed grows
  obtain ⟨fault | value, middle⟩ := ended
  · cases missed
    exact before name (by rw [ran])
  · obtain ⟨named, hidden⟩ := after value middle ran name missed
    refine ⟨named, Bool.eq_false_iff.mpr fun visible => ?_⟩
    rw [grows.contains visible] at hidden
    cases hidden

/-- A larger class; it need only have the names that are not visible. -/
theorem mono {larger : String → Prop} {action : Run σ α} (misses : MissesOnly names s action)
    (within : ∀ name, names name → s.env.contains name = false → larger name) :
    MissesOnly larger s action := by
  intro name missed
  obtain ⟨named, hidden⟩ := misses name missed
  exact ⟨within name named hidden, hidden⟩

theorem lookup {name : String} (named : names name) :
    MissesOnly names s (Run.lookup name : Run σ Node) := by
  intro other missed
  change s.env.get name = .error (.undefinedVariable other) at missed
  unfold Environment.get at missed
  split at missed
  · cases missed
  · rename_i unbound
    cases missed
    exact ⟨named, by rw [Environment.contains, unbound]; rfl⟩

theorem define (name : String) (value : Node) :
    MissesOnly names s (Run.define name value : Run σ Unit) := by
  intro other missed
  cases missed

theorem note (event : Event) : MissesOnly names s (Run.note event : Run σ Unit) := by
  intro name missed
  cases missed

/-- A sink that fails is another fault. -/
theorem onSink (action : σ → Except String Unit × σ) : MissesOnly names s (Run.onSink action) := by
  intro name missed
  rw [Run.run_onSink] at missed
  generalize (action s.sink).1 = outcome at missed
  cases outcome with
  | ok done => cases missed
  | error reason => cases missed

variable [Sink σ]

theorem echo (statement value : Node) :
    MissesOnly names s (Run.echo statement value : Run σ Unit) := by
  unfold Run.echo
  split
  · exact onSink _
  · exact pure ()

end MissesOnly

/-! ## Following the evaluator -/

/-- Evaluation defines names and does nothing else to the environment. -/
theorem BindsOnly.eval_any [Sink σ] (node : Node) :
    BindsOnly (fun _ => True) (node.eval : Run σ Node) :=
  BindsOnly.eval node fun _ _ => trivial

theorem BindsOnly.evalAll_any [Sink σ] (nodes : List Node) :
    BindsOnly (fun _ => True) (Node.evalAll nodes : Run σ (List Node)) :=
  BindsOnly.evalAll nodes fun _ _ _ _ => trivial

/-- A definition that is evaluated to its end has made its name visible. -/
theorem contains_of_eval_definition [Sink σ] {name : String} {value result : Node}
    {s last : Session σ} (ran : (Node.definition name value).eval.run s = (.ok result, last)) :
    last.env.contains name = true := by
  rw [Node.eval] at ran
  obtain ⟨found, middle, _, defined⟩ := Run.of_run_bind_ok ran
  cases defined
  exact Environment.contains_define.mpr (.inl rfl)

mutual

/-- A node misses only names that it mentions. -/
theorem Node.misses_eval [Sink σ] : ∀ (node : Node) (s : Session σ),
    MissesOnly (fun name => node.Mentions name) s node.eval
  | .program statements, s => by
      rw [Node.eval]
      refine .bind (.evalAll_any statements) ?_ fun values _ _ => .pure _
      refine (Node.misses_evalAll statements s).mono ?_
      rintro name ⟨front, statement, rest, rfl, mentions, _⟩ _
      exact .statement (by simp) mentions
  | .definition name value, s => by
      rw [Node.eval]
      refine .bind (.eval_any value) ?_ fun found middle _ => ?_
      · exact (Node.misses_eval value s).mono fun _ mentions _ => .value mentions
      · exact .bind (.define trivial found) (.define name found) fun _ _ _ => .pure _
  | .conditional condition onTrue onFalse, s => by
      rw [Node.eval]
      refine .bind (.eval_any condition) ?_ fun chosen middle _ => ?_
      · exact (Node.misses_eval condition s).mono fun _ mentions _ => .condition mentions
      · cases chosen with
        | boolean truth =>
            cases truth with
            | true =>
                exact (Node.misses_eval onTrue middle).mono fun _ mentions _ => .onTrue mentions
            | false =>
                exact (Node.misses_eval onFalse middle).mono fun _ mentions _ => .onFalse mentions
        | program | definition | conditional | ref | string => exact .mismatch _ _
  | .ref name, s => by
      rw [Node.eval]
      exact .lookup .here
  | .string text, s => by
      rw [Node.eval]
      exact .pure _
  | .boolean truth, s => by
      rw [Node.eval]
      exact .pure _

/-- Statements miss only names that are used before they are defined. -/
theorem Node.misses_evalAll [Sink σ] : ∀ (nodes : List Node) (s : Session σ),
    MissesOnly (fun name => UsesUnbound name nodes) s (Node.evalAll nodes)
  | [], s => by
      rw [Node.evalAll]
      exact .bind (.onSink _) (.onSink _) fun _ _ _ => .pure _
  | first :: rest, s => by
      rw [Node.evalAll_cons]
      refine .bind (.eval_any first) ?_ fun value middle ran => ?_
      · exact (Node.misses_eval first s).mono fun _ mentions _ => .here mentions rest
      -- The rest is reached only if the first statement is at its end.
      have later : MissesOnly (fun name => UsesUnbound name rest) middle
          (do Run.note (.evaluated first value)
              Run.echo first value
              let values ← Node.evalAll rest
              return value :: values) := by
        refine .bind (.note _) (.note _) fun _ noted _ => ?_
        refine .bind (.echo _ _) (.echo _ _) fun _ echoed _ => ?_
        exact .bind (.evalAll_any rest) (Node.misses_evalAll rest echoed) fun _ _ _ => .pure _
      refine later.mono fun name uses hidden => uses.later ?_
      rintro value rfl
      rw [contains_of_eval_definition ran] at hidden
      cases hidden

end

/-- **Names that are bound before they are used are found**, and a name that is not found was
used unbound, whatever the session has bound and whatever the sink does. -/
theorem run_finds_bound_names [Sink σ] (program : Node) (session : Session σ) :
    (BoundBeforeUse session.env program.statements →
      ∀ name, (program.run.run session).1 ≠ .error (.undefinedVariable name)) ∧
    ∀ name, (program.run.run session).1 = .error (.undefinedVariable name) →
      session.env.contains name = false ∧ UsesUnbound name program.statements := by
  have misses := Node.misses_evalAll program.statements session
  constructor
  · intro bound name missed
    obtain ⟨⟨front, statement, rest, whole, mentions, undefined⟩, hidden⟩ := misses name missed
    rcases bound front statement rest whole name mentions with visible | ⟨value, defined⟩
    · rw [visible] at hidden
      cases hidden
    · exact undefined value defined
  · intro name missed
    obtain ⟨uses, hidden⟩ := misses name missed
    exact ⟨hidden, uses⟩

/-- A name from an outer scope and one that is defined first are found.  A definition inside a
branch that is not taken defines nothing. -/
theorem names_of_orderly_and_hasty_programs :
    let session := ((Session.start Transcript.empty).define "g" (.boolean true)).enter
    let orderly := Node.program
      [.definition "f" (.ref "g"), .conditional (.ref "g") (.ref "f") (.ref "f")]
    let hasty := Node.program
      [.conditional (.ref "g") (.string "") (.definition "h" (.ref "g")), .ref "h"]
    (BoundBeforeUse session.env orderly.statements ∧
      ∀ name, (orderly.run.run session).1 ≠ .error (.undefinedVariable name)) ∧
    (hasty.run.run session).1 = .error (.undefinedVariable "h") ∧
      session.env.contains "h" = false ∧ UsesUnbound "h" hasty.statements := by
  intro session orderly hasty
  have bound : BoundBeforeUse session.env orderly.statements := by
    rintro (_ | ⟨first, _ | ⟨second, front⟩⟩) statement rest whole name mentions
    · cases whole
      cases mentions with
      | value inside =>
          cases inside
          exact .inl rfl
    · cases whole
      cases mentions with
      | condition inside =>
          cases inside
          exact .inl rfl
      | onTrue inside | onFalse inside =>
          cases inside
          exact .inr ⟨_, List.mem_cons_self⟩
    · simp [orderly, Node.statements] at whole
  have missed : (hasty.run.run session).1 = .error (.undefinedVariable "h") := rfl
  exact ⟨⟨bound, (run_finds_bound_names orderly session).1 bound⟩, missed,
    (run_finds_bound_names hasty session).2 "h" missed⟩

end ColonLisp
