/-
# Proofs.Pairing -- two runs of the evaluator, side by side

A `Pairing` relates the sessions of two runs, whose sinks may be of different types.  Paired
sessions look up every name alike, and they stay paired when a name is bound or an event is
noted.  The sink of the second run may cut that run off while the first goes on; `cut` is
what holds from then on of the first run's sink.

`Tracks` says of an action in each run that they end alike: in one value or one fault with
the sessions paired again, or with the second run cut off.  Tracked actions compose
(`Tracks.bind`), so the evaluator is tracked node by node:

* an expression never touches the sink, so every pairing tracks it
  (`Tracks.eval_of_isExpression`);
* a node with programs inside it is tracked if writing and flushing are
  (`Tracks.eval`, `Tracks.evalAll`).
-/
import ColonLisp.Evaluation
import ColonLisp.Proofs.Grammar

set_option autoImplicit false

namespace ColonLisp

variable {σ τ α β : Type}

/-! ## Running actions -/

namespace Run

/-- What an action does after another one depends on how that one ended. -/
theorem run_bind (first : Run σ α) (next : α → Run σ β) (s : Session σ) :
    (first >>= next).run s =
      match first.run s with
      | (.ok value, after) => (next value).run after
      | (.error fault, after) => (.error fault, after) := by
  change (ExceptT.bindCont next (first.run s).1) (first.run s).2 = _
  rcases first.run s with ⟨fault | value, after⟩
  · rfl
  · rfl

/-- Two actions in turn have a result only if both have one. -/
theorem of_run_bind_ok {first : Run σ α} {next : α → Run σ β} {s last : Session σ} {result : β}
    (ran : (first >>= next).run s = (.ok result, last)) :
    ∃ value middle, first.run s = (.ok value, middle) ∧
      (next value).run middle = (.ok result, last) := by
  rw [run_bind] at ran
  generalize first.run s = ended at ran
  obtain ⟨fault | value, middle⟩ := ended
  · cases ran
  · exact ⟨value, middle, rfl, ran⟩

theorem run_onSink (action : σ → Except String Unit × σ) (s : Session σ) :
    (onSink action).run s =
      ((action s.sink).1.mapError Fault.output, { s with sink := (action s.sink).2 }) := rfl

/-- Writes the value of a statement, unless the statement is a literal. -/
def echo [Sink σ] (statement value : Node) : Run σ Unit :=
  if statement.reducible then write (value.render ++ "\n") else pure ()

end Run

theorem Node.evalAll_cons [Sink σ] (statement : Node) (rest : List Node) :
    (Node.evalAll (statement :: rest) : Run σ (List Node)) = do
      let value ← statement.eval
      Run.note (.evaluated statement value)
      Run.echo statement value
      let values ← Node.evalAll rest
      return value :: values := by
  rw [Node.evalAll]
  congr 1
  funext value
  congr 1
  funext _
  unfold Run.echo
  split
  · rfl
  · rw [pure_bind]

/-! ## Pairings -/

/-- A relation between the sessions of two runs that every action on names keeps. -/
structure Pairing (σ τ : Type) where
  paired : Session σ → Session τ → Prop
  /-- What holds of the first run's sink once the second run has ended in a fault alone. -/
  cut : σ → Fault → Session τ → Prop
  /-- The faults that both runs may end in. -/
  shared : Fault → Prop
  find?_eq : ∀ {s t}, paired s t → ∀ name, s.env.find? name = t.env.find? name
  define : ∀ {s t}, paired s t → ∀ name value, paired (s.define name value) (t.define name value)
  note : ∀ {s t}, paired s t → ∀ event, paired (s.note event) (t.note event)
  shares_evaluation : ∀ {fault : Fault}, fault.stage = .evaluation → shared fault

namespace Pairing

/-- How two runs may end. -/
inductive Ends (pairing : Pairing σ τ) :
    Except Fault α × Session σ → Except Fault α × Session τ → Prop where
  | value {value : α} {s : Session σ} {t : Session τ} :
      pairing.paired s t → Ends pairing (.ok value, s) (.ok value, t)
  | fault {fault : Fault} {s : Session σ} {t : Session τ} :
      pairing.shared fault → pairing.paired s t → Ends pairing (.error fault, s) (.error fault, t)
  | cut {result : Except Fault α} {s : Session σ} {fault : Fault} {t : Session τ} :
      pairing.cut s.sink fault t → Ends pairing (result, s) (.error fault, t)

/-- Two actions end alike in paired sessions, and once the second run is cut off the first
action may still be taken. -/
structure Tracks (pairing : Pairing σ τ) (left : Run σ α) (right : Run τ α) : Prop where
  ends : ∀ {s t}, pairing.paired s t → pairing.Ends (left.run s) (right.run t)
  stays : ∀ {s fault t}, pairing.cut s.sink fault t → pairing.cut (left.run s).2.sink fault t

namespace Tracks

variable {pairing : Pairing σ τ}

theorem pure (value : α) : pairing.Tracks (Pure.pure value) (Pure.pure value) :=
  ⟨fun paired => .value paired, id⟩

theorem throw {fault : Fault} (shared : pairing.shared fault) :
    pairing.Tracks (MonadExcept.throw fault : Run σ α) (MonadExcept.throw fault) :=
  ⟨fun paired => .fault shared paired, id⟩

/-- Tracked actions compose.  A fault of both runs ends both; if only the second run is cut
off, the first takes its next action alone. -/
theorem bind {left : Run σ α} {right : Run τ α} {next : α → Run σ β} {next' : α → Run τ β}
    (first : pairing.Tracks left right)
    (second : ∀ value, pairing.Tracks (next value) (next' value)) :
    pairing.Tracks (left >>= next) (right >>= next') := by
  constructor
  · intro s t paired
    rw [Run.run_bind, Run.run_bind]
    have ends := first.ends paired
    generalize left.run s = ended at ends ⊢
    generalize right.run t = ended' at ends ⊢
    cases ends with
    | value paired => exact (second _).ends paired
    | fault shared paired => exact .fault shared paired
    | @cut result s fault t cut =>
        cases result with
        | error _ => exact .cut cut
        | ok value => exact .cut ((second value).stays cut)
  · intro s fault t cut
    rw [Run.run_bind]
    have stays := first.stays cut
    generalize left.run s = ended at stays ⊢
    obtain ⟨_ | value, after⟩ := ended
    · exact stays
    · exact (second value).stays stays

/-- An action on a result that both runs have from elsewhere. -/
theorem ofExcept_bind {result : Except Fault α} {next : α → Run σ β} {next' : α → Run τ β}
    (shared : ∀ fault, result = .error fault → pairing.shared fault)
    (second : ∀ value, result = .ok value → pairing.Tracks (next value) (next' value)) :
    pairing.Tracks (Run.ofExcept result >>= next) (Run.ofExcept result >>= next') := by
  cases result with
  | ok value => exact second value rfl
  | error fault => exact throw (shared fault rfl)

theorem lookup (name : String) : pairing.Tracks (Run.lookup name) (Run.lookup name) := by
  refine ⟨fun {s t} paired => ?_, id⟩
  change pairing.Ends (s.env.get name, s) (t.env.get name, t)
  unfold Environment.get
  rw [← pairing.find?_eq paired name]
  cases s.env.find? name with
  | some value => exact .value paired
  | none => exact .fault (pairing.shares_evaluation rfl) paired

theorem define (name : String) (value : Node) :
    pairing.Tracks (Run.define name value) (Run.define name value) :=
  ⟨fun paired => .value (pairing.define paired name value), id⟩

theorem note (event : Event) : pairing.Tracks (Run.note event) (Run.note event) :=
  ⟨fun paired => .value (pairing.note paired event), id⟩

/-- If neither run can be cut off, actions on the sinks are tracked that end alike and keep
the sessions paired. -/
theorem onSink {action : σ → Except String Unit × σ} {action' : τ → Except String Unit × τ}
    (uncut : ∀ {sink fault t}, ¬ pairing.cut sink fault t)
    (shared : ∀ reason, pairing.shared (.output reason))
    (alike : ∀ {s t}, pairing.paired s t → (action s.sink).1 = (action' t.sink).1 ∧
      pairing.paired { s with sink := (action s.sink).2 } { t with sink := (action' t.sink).2 }) :
    pairing.Tracks (Run.onSink action) (Run.onSink action') := by
  refine ⟨fun {s t} paired => ?_, fun cut => absurd cut uncut⟩
  obtain ⟨outcome, after⟩ := alike paired
  rw [Run.run_onSink, Run.run_onSink, outcome]
  cases (action' t.sink).1 with
  | ok _ => exact .value after
  | error _ => exact .fault (shared _) after

/-! ## Tracking the evaluator -/

variable [Sink σ] [Sink τ]

theorem definition (name : String) {value : Node}
    (tracked : pairing.Tracks value.eval value.eval) :
    pairing.Tracks (Node.definition name value).eval (Node.definition name value).eval := by
  rw [Node.eval, Node.eval]
  exact tracked.bind fun found => (define name found).bind fun _ => pure _

/-- Both runs take the same branch, because the conditions end alike. -/
theorem conditional {condition onTrue onFalse : Node}
    (first : pairing.Tracks condition.eval condition.eval)
    (second : pairing.Tracks onTrue.eval onTrue.eval)
    (third : pairing.Tracks onFalse.eval onFalse.eval) :
    pairing.Tracks (Node.conditional condition onTrue onFalse).eval
      (Node.conditional condition onTrue onFalse).eval := by
  rw [Node.eval, Node.eval]
  refine first.bind fun chosen => ?_
  cases chosen with
  | boolean value =>
      cases value with
      | true => exact second
      | false => exact third
  | _ => exact throw (pairing.shares_evaluation rfl)

theorem ref (name : String) : pairing.Tracks (Node.ref name).eval (Node.ref name).eval := by
  rw [Node.eval, Node.eval]
  exact lookup name

theorem string (text : String) :
    pairing.Tracks (Node.string text).eval (Node.string text).eval := by
  rw [Node.eval, Node.eval]
  exact pure _

theorem boolean (value : Bool) :
    pairing.Tracks (Node.boolean value).eval (Node.boolean value).eval := by
  rw [Node.eval, Node.eval]
  exact pure _

/-- An expression is tracked whatever the sinks do. -/
theorem eval_of_isExpression {names : String → Prop} {node : Node}
    (expression : node.IsExpression names) : pairing.Tracks node.eval node.eval := by
  induction expression with
  | string text => exact string text
  | boolean value => exact boolean value
  | ref _ => exact ref _
  | definition _ _ tracked => exact definition _ tracked
  | conditional _ _ _ first second third => exact conditional first second third

theorem echo (writes : ∀ text, pairing.Tracks (Run.write text) (Run.write text))
    (statement value : Node) :
    pairing.Tracks (Run.echo statement value) (Run.echo statement value) := by
  unfold Run.echo
  split
  · exact writes _
  · exact pure ()

mutual

/-- A node is tracked if the two actions on the sinks are. -/
theorem eval (writes : ∀ text, pairing.Tracks (Run.write text) (Run.write text))
    (flushes : pairing.Tracks Run.flush Run.flush) :
    ∀ node : Node, pairing.Tracks node.eval node.eval
  | .program statements => by
      rw [Node.eval, Node.eval]
      exact (evalAll writes flushes statements).bind fun values => pure _
  | .definition name value => definition name (eval writes flushes value)
  | .conditional condition onTrue onFalse =>
      conditional (eval writes flushes condition) (eval writes flushes onTrue)
        (eval writes flushes onFalse)
  | .ref name => ref name
  | .string text => string text
  | .boolean value => boolean value

theorem evalAll (writes : ∀ text, pairing.Tracks (Run.write text) (Run.write text))
    (flushes : pairing.Tracks Run.flush Run.flush) :
    ∀ nodes : List Node, pairing.Tracks (Node.evalAll nodes) (Node.evalAll nodes)
  | [] => by
      rw [Node.evalAll, Node.evalAll]
      exact flushes.bind fun _ => pure []
  | statement :: rest => by
      rw [Node.evalAll_cons, Node.evalAll_cons]
      refine (eval writes flushes statement).bind fun value => (note _).bind fun _ => ?_
      refine (echo writes statement value).bind fun _ => ?_
      exact (evalAll writes flushes rest).bind fun _ => pure _

end

end Tracks

end Pairing

end ColonLisp
