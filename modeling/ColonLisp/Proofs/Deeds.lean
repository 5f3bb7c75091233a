/-
# Proofs.Deeds -- a run writes what it has completed

What a run does is a list of deeds: a definition binds its name, a statement of some list is
completed, a list of statements comes to its end.  `Evaluates`, `Completes` and `Runs` are rules
that say which deeds a node, statements that are all completed, and a list of statements give
rise to in an environment, and how they end.  No session and no sink has a part in them.

`run_carries_out_deeds`: the rules give an account of every program in every environment, and if
the sink never fails, what they say is what a run does (`CarriedOut`).  The names bound afterwards
are those of the deeds.  What is written are the values of the reducible statements, in the order
in which they were completed, each on a line, and the sink is flushed once for each list that came
to its end.  A fault stops the run inside a statement: the deeds up to there are done, and the
statements after it could as well be others.

* The rules miss nothing: by induction on the node there is always one that applies
  (`exists_evaluates`, `exists_runs`).
* An action does the deeds that the rules give it and no others, by induction on the rules
  (`Evaluates.run_eq`, `Completes.run_eq`, `Runs.run_eq`).
* The session after deeds has their names bound and their calls made on the sink
  (`Session.env_after`, `Session.sink_after`).  A `Recorded` sink shows the bytes of the calls and
  a `Logged` sink shows the calls.
-/
import ColonLisp.Proofs.Echoes

set_option autoImplicit false

namespace ColonLisp

variable {σ : Type}

/-! ## Deeds -/

/-- One thing that a run does. -/
inductive Deed where
  /-- A definition binds its name. -/
  | bound (name : String) (value : Node)
  /-- A statement, of the program or of a program inside it, is completed. -/
  | completed (statement value : Node)
  /-- A list of statements comes to its end. -/
  | ended

namespace Deed

/-- What becomes of the names. -/
def bind (env : Environment) : Deed → Environment
  | bound name value => env.define name value
  | completed .. | ended => env

/-- The calls on the sink: a reducible statement has its value written, and the end of a list
is a flush. -/
def calls : Deed → List Sink.Call
  | bound .. => []
  | completed statement value =>
      if statement.reducible then [.write (value.render ++ "\n")] else []
  | ended => [.flush]

/-- The value that is written. -/
def shown? : Deed → Option Node
  | completed statement value => if statement.reducible then some value else none
  | bound .. | ended => none

def isEnd : Deed → Bool
  | ended => true
  | bound .. | completed .. => false

end Deed

/-- The environment after deeds. -/
def Environment.after (env : Environment) (deeds : List Deed) : Environment :=
  deeds.foldl Deed.bind env

theorem Environment.after_append (env : Environment) (deeds more : List Deed) :
    env.after (deeds ++ more) = (env.after deeds).after more :=
  List.foldl_append

/-! ## The rules -/

mutual

/-- Evaluating the node in the environment ends so, after these deeds. -/
inductive Evaluates : Environment → Node → Except Fault Node → List Deed → Prop where
  | program {env : Environment} {statements : List Node} {result : Except Fault (List Node)}
      {deeds : List Deed} :
      Runs env statements result deeds →
      Evaluates env (.program statements) (result.map Node.program) deeds
  | definition {env : Environment} {name : String} {value found : Node} {deeds : List Deed} :
      Evaluates env value (.ok found) deeds →
      Evaluates env (.definition name value) (.ok (.definition name value))
        (deeds ++ [.bound name found])
  | unvalued {env : Environment} {name : String} {value : Node} {fault : Fault}
      {deeds : List Deed} :
      Evaluates env value (.error fault) deeds →
      Evaluates env (.definition name value) (.error fault) deeds
  | onTrue {env : Environment} {condition onTrue onFalse : Node} {result : Except Fault Node}
      {deeds more : List Deed} :
      Evaluates env condition (.ok (.boolean true)) deeds →
      Evaluates (env.after deeds) onTrue result more →
      Evaluates env (.conditional condition onTrue onFalse) result (deeds ++ more)
  | onFalse {env : Environment} {condition onTrue onFalse : Node} {result : Except Fault Node}
      {deeds more : List Deed} :
      Evaluates env condition (.ok (.boolean false)) deeds →
      Evaluates (env.after deeds) onFalse result more →
      Evaluates env (.conditional condition onTrue onFalse) result (deeds ++ more)
  | mismatch {env : Environment} {condition onTrue onFalse other : Node} {deeds : List Deed} :
      Evaluates env condition (.ok other) deeds → (∀ truth, other ≠ .boolean truth) →
      Evaluates env (.conditional condition onTrue onFalse)
        (.error (.typeMismatch "boolean" other.typeName)) deeds
  | undecided {env : Environment} {condition onTrue onFalse : Node} {fault : Fault}
      {deeds : List Deed} :
      Evaluates env condition (.error fault) deeds →
      Evaluates env (.conditional condition onTrue onFalse) (.error fault) deeds
  | ref {env : Environment} {name : String} {value : Node} :
      env.find? name = some value → Evaluates env (.ref name) (.ok value) []
  | undefined {env : Environment} {name : String} :
      env.find? name = none →
      Evaluates env (.ref name) (.error (.undefinedVariable name)) []
  | string {env : Environment} (text : String) :
      Evaluates env (.string text) (.ok (.string text)) []
  | boolean {env : Environment} (truth : Bool) :
      Evaluates env (.boolean truth) (.ok (.boolean truth)) []

/-- The statements are all completed, with one value for each, after these deeds.  A statement
is completed after its own deeds, so what is inside it comes before it. -/
inductive Completes : Environment → List Node → List Node → List Deed → Prop where
  | nil {env : Environment} : Completes env [] [] []
  | cons {env : Environment} {statement value : Node} {rest values : List Node}
      {deeds more : List Deed} :
      Evaluates env statement (.ok value) deeds →
      Completes (env.after deeds) rest values more →
      Completes env (statement :: rest) (value :: values)
        (deeds ++ .completed statement value :: more)

/-- The list of statements is run through, or it is stopped by a fault inside a statement, and
then those after it have no part in what happens. -/
inductive Runs : Environment → List Node → Except Fault (List Node) → List Deed → Prop where
  | through {env : Environment} {statements values : List Node} {deeds : List Deed} :
      Completes env statements values deeds →
      Runs env statements (.ok values) (deeds ++ [.ended])
  | stopped {env : Environment} {front rest values : List Node} {statement : Node} {fault : Fault}
      {deeds more : List Deed} :
      Completes env front values deeds →
      Evaluates (env.after deeds) statement (.error fault) more →
      Runs env (front ++ statement :: rest) (.error fault) (deeds ++ more)

end

theorem Completes.length_eq {env : Environment} {statements values : List Node}
    {deeds : List Deed} (completes : Completes env statements values deeds) :
    values.length = statements.length := by
  match completes with
  | .nil => rfl
  | .cons _ others => simpa using others.length_eq
termination_by structural completes

/-! ## The rules miss nothing -/

/-- A statement that is completed, before others that are run. -/
theorem Runs.cons {env : Environment} {statement value : Node} {rest : List Node}
    {result : Except Fault (List Node)} {deeds more : List Deed}
    (first : Evaluates env statement (.ok value) deeds)
    (others : Runs (env.after deeds) rest result more) :
    Runs env (statement :: rest) (result.map (value :: ·))
      (deeds ++ .completed statement value :: more) := by
  cases others with
  | through completes =>
      have all := Runs.through (.cons first completes)
      rw [List.append_assoc, List.cons_append] at all
      exact all
  | @stopped _ front after _ refuser _ before last completes refused =>
      -- What was completed binds nothing, so the fault is met in the same environment.
      have later : env.after (deeds ++ .completed statement value :: before) =
          (env.after deeds).after before :=
        env.after_append deeds _
      have all : Runs env ((statement :: front) ++ refuser :: after) _ _ :=
        .stopped (.cons first completes) (later ▸ refused)
      rw [List.append_assoc, List.cons_append, List.cons_append] at all
      exact all

mutual

/-- The induction is on the node; the environment changes on the way, so it is left open. -/
theorem exists_evaluates (env : Environment) :
    ∀ node : Node, ∃ result deeds, Evaluates env node result deeds
  | .program statements => by
      obtain ⟨result, deeds, runs⟩ := exists_runs env statements
      exact ⟨_, deeds, .program runs⟩
  | .definition name value => by
      obtain ⟨fault | found, deeds, evaluates⟩ := exists_evaluates env value
      · exact ⟨_, _, .unvalued evaluates⟩
      · exact ⟨_, _, .definition evaluates⟩
  | .conditional condition onTrue onFalse => by
      obtain ⟨fault | chosen, deeds, evaluates⟩ := exists_evaluates env condition
      · exact ⟨_, _, .undecided evaluates⟩
      cases chosen with
      | boolean truth =>
          cases truth with
          | true =>
              obtain ⟨result, more, branch⟩ := exists_evaluates (env.after deeds) onTrue
              exact ⟨_, _, .onTrue evaluates branch⟩
          | false =>
              obtain ⟨result, more, branch⟩ := exists_evaluates (env.after deeds) onFalse
              exact ⟨_, _, .onFalse evaluates branch⟩
      | program | definition | conditional | ref | string =>
          exact ⟨_, _, .mismatch evaluates fun _ isBoolean => by cases isBoolean⟩
  | .ref name => by
      cases found : env.find? name with
      | some value => exact ⟨_, _, .ref found⟩
      | none => exact ⟨_, _, .undefined found⟩
  | .string text => ⟨_, _, .string text⟩
  | .boolean truth => ⟨_, _, .boolean truth⟩

theorem exists_runs (env : Environment) :
    ∀ nodes : List Node, ∃ result deeds, Runs env nodes result deeds
  | [] => ⟨_, _, .through .nil⟩
  | statement :: rest => by
      obtain ⟨fault | value, deeds, evaluates⟩ := exists_evaluates env statement
      · have stopped : Runs env ([] ++ statement :: rest) (.error fault) ([] ++ deeds) :=
          .stopped .nil evaluates
        exact ⟨_, _, stopped⟩
      · obtain ⟨result, more, runs⟩ := exists_runs (env.after deeds) rest
        exact ⟨_, _, runs.cons evaluates⟩

end

/-! ## Deeds done in a session -/

namespace Sink

variable [Sink σ]

/-- The sink after calls. -/
def after (sink : σ) (calls : List Call) : σ := calls.foldl (fun sink call => (call.on sink).2) sink

theorem after_append (sink : σ) (calls more : List Call) :
    after sink (calls ++ more) = after (after sink calls) more :=
  List.foldl_append

theorem Unfailing.after {sink : σ} (unfailing : Unfailing sink) (calls : List Call) :
    Unfailing (Sink.after sink calls) := by
  intro before call
  have ok := unfailing (calls ++ before) call
  rwa [List.foldl_append] at ok

end Sink

namespace Session

variable [Sink σ]

/-- Binds the name of a deed, or notes it. -/
def mark (session : Session σ) : Deed → Session σ
  | .bound name value => session.define name value
  | .completed statement value => session.note (.evaluated statement value)
  | .ended => session

/-- Does a deed. -/
def perform (session : Session σ) (deed : Deed) : Session σ :=
  { session.mark deed with sink := Sink.after session.sink deed.calls }

/-- The session after deeds. -/
def after (session : Session σ) (deeds : List Deed) : Session σ := deeds.foldl perform session

theorem after_append (session : Session σ) (deeds more : List Deed) :
    session.after (deeds ++ more) = (session.after deeds).after more :=
  List.foldl_append

theorem env_perform (session : Session σ) (deed : Deed) :
    (session.perform deed).env = deed.bind session.env := by
  cases deed with
  | bound name value => rfl
  | completed statement value => rfl
  | ended => rfl

theorem env_after (session : Session σ) (deeds : List Deed) :
    (session.after deeds).env = session.env.after deeds := by
  induction deeds generalizing session with
  | nil => rfl
  | cons deed rest ih =>
      show ((session.perform deed).after rest).env = (deed.bind session.env).after rest
      rw [ih, env_perform]

theorem sink_after (session : Session σ) (deeds : List Deed) :
    (session.after deeds).sink = Sink.after session.sink (deeds.flatMap Deed.calls) := by
  induction deeds generalizing session with
  | nil => rfl
  | cons deed rest ih =>
      show ((session.perform deed).after rest).sink = _
      rw [ih, List.flatMap_cons, Sink.after_append]
      rfl

end Session

/-! ## A run does the deeds -/

section Doing

variable [Sink σ]

/-- These names are bound in the session, and its sink does not fail. -/
structure Session.Stands (session : Session σ) (env : Environment) : Prop where
  env_eq : session.env = env
  unfailing : Sink.Unfailing session.sink

theorem Session.Stands.after {session : Session σ} {env : Environment}
    (stands : session.Stands env) (deeds : List Deed) :
    (session.after deeds).Stands (env.after deeds) := by
  constructor
  · rw [Session.env_after, stands.env_eq]
  · rw [Session.sink_after]
    exact stands.unfailing.after _

/-- A call that does not fail has no other effect than on the sink. -/
theorem Run.run_call (session : Session σ) (unfailing : Sink.Unfailing session.sink)
    (call : Sink.Call) :
    (Run.onSink call.on).run session =
      (.ok (), { session with sink := Sink.after session.sink [call] }) := by
  rw [Run.run_onSink, (unfailing.on call).1]
  rfl

theorem Run.run_echo (session : Session σ) (unfailing : Sink.Unfailing session.sink)
    (statement value : Node) :
    (Run.echo statement value).run (session.note (.evaluated statement value)) =
      (.ok (), session.perform (.completed statement value)) := by
  cases reducible : statement.reducible with
  | true =>
      simp only [Run.echo, Session.perform, Deed.calls, reducible, if_true]
      exact Run.run_call (session.note _) unfailing (.write _)
  | false =>
      simp only [Run.echo, Session.perform, Deed.calls, reducible]
      rfl

/-- Where a list of statements is at its end, the sink is flushed. -/
theorem Node.run_evalAll_nil {session : Session σ} (unfailing : Sink.Unfailing session.sink) :
    (Node.evalAll []).run session = (.ok [], session.perform .ended) := by
  have flushed : Run.flush.run session = (.ok (), session.perform .ended) :=
    Run.run_call session unfailing .flush
  rw [Node.evalAll, Run.run_bind, flushed]
  rfl

/-- A statement that has a value is completed, and the others come after it. -/
theorem Node.run_evalAll_cons {statement value : Node} {rest : List Node}
    {result : Except Fault (List Node)} {session middle last : Session σ}
    (first : statement.eval.run session = (.ok value, middle))
    (unfailing : Sink.Unfailing middle.sink)
    (others : (Node.evalAll rest).run (middle.perform (.completed statement value)) =
      (result, last)) :
    (Node.evalAll (statement :: rest)).run session = (result.map (value :: ·), last) := by
  rw [Node.evalAll_cons, Run.run_bind, first]
  show (Run.echo statement value >>= _).run (middle.note (.evaluated statement value)) = _
  rw [Run.run_bind, Run.run_echo middle unfailing]
  show (Node.evalAll rest >>= _).run _ = _
  rw [Run.run_bind, others]
  cases result with
  | error fault => rfl
  | ok values => rfl

/-- A statement that ends in a fault is the last one. -/
theorem Node.run_evalAll_cons_error {statement : Node} {fault : Fault} {session last : Session σ}
    (refused : statement.eval.run session = (.error fault, last)) (rest : List Node) :
    (Node.evalAll (statement :: rest)).run session = (.error fault, last) := by
  rw [Node.evalAll_cons, Run.run_bind, refused]

mutual

/-- What the rules say of a node is what its evaluation does. -/
theorem Evaluates.run_eq {env : Environment} {node : Node} {result : Except Fault Node}
    {deeds : List Deed} (evaluates : Evaluates env node result deeds) {session : Session σ}
    (stands : session.Stands env) : node.eval.run session = (result, session.after deeds) := by
  -- The induction is on the rules.  Each is followed by one bind of the evaluator, and the
  -- session stands where the next rule begins because its names are those of the deeds so far.
  match evaluates with
  | @Evaluates.program _ _ ended _ runs =>
      rw [Node.eval, Run.run_bind, runs.run_eq stands]
      cases ended with
      | error fault => rfl
      | ok values => rfl
  | .definition value =>
      rw [Node.eval, Run.run_bind, value.run_eq stands, Session.after_append]
      rfl
  | .unvalued value => rw [Node.eval, Run.run_bind, value.run_eq stands]
  | .onTrue condition branch =>
      rw [Node.eval, Run.run_bind, condition.run_eq stands, Session.after_append]
      exact branch.run_eq (stands.after _)
  | .onFalse condition branch =>
      rw [Node.eval, Run.run_bind, condition.run_eq stands, Session.after_append]
      exact branch.run_eq (stands.after _)
  | @Evaluates.mismatch _ _ _ _ other _ condition noBoolean =>
      rw [Node.eval, Run.run_bind, condition.run_eq stands]
      cases other with
      | boolean truth => exact absurd rfl (noBoolean truth)
      | _ => rfl
  | .undecided condition => rw [Node.eval, Run.run_bind, condition.run_eq stands]
  | .ref found =>
      rw [Node.eval]
      show (session.env.get _, session) = _
      rw [Environment.get, stands.env_eq, found]
      rfl
  | .undefined missing =>
      rw [Node.eval]
      show (session.env.get _, session) = _
      rw [Environment.get, stands.env_eq, missing]
      rfl
  | .string text =>
      rw [Node.eval]
      rfl
  | .boolean truth =>
      rw [Node.eval]
      rfl
termination_by structural evaluates

/-- Statements that are completed, before others that end in some way. -/
theorem Completes.run_eq {env : Environment} {front values : List Node} {deeds : List Deed}
    (completes : Completes env front values deeds) {session : Session σ}
    (stands : session.Stands env) {rest : List Node} {result : Except Fault (List Node)}
    {last : Session σ} (others : (Node.evalAll rest).run (session.after deeds) = (result, last)) :
    (Node.evalAll (front ++ rest)).run session = (result.map (values ++ ·), last) := by
  match completes with
  | .nil =>
      rw [List.nil_append]
      cases result with
      | error fault => exact others
      | ok values => exact others
  | @Completes.cons _ statement value _ values before more first completes =>
      have middle := stands.after before
      have completed := middle.after [.completed statement value]
      rw [Session.after_append] at others
      have later := completes.run_eq completed others
      rw [List.cons_append, Node.run_evalAll_cons (first.run_eq stands) middle.unfailing later]
      cases result with
      | error fault => rfl
      | ok values => rfl
termination_by structural completes

theorem Runs.run_eq {env : Environment} {statements : List Node}
    {result : Except Fault (List Node)} {deeds : List Deed}
    (runs : Runs env statements result deeds) {session : Session σ}
    (stands : session.Stands env) :
    (Node.evalAll statements).run session = (result, session.after deeds) := by
  match runs with
  | @Runs.through _ _ values before completes =>
      have ended := Node.run_evalAll_nil (stands.after before).unfailing
      have all := completes.run_eq stands ended
      rw [List.append_nil] at all
      rw [all, Session.after_append]
      exact congrArg (Except.ok · , _) (List.append_nil values)
  | @Runs.stopped _ _ rest _ _ _ before _ completes refused =>
      have stops := Node.run_evalAll_cons_error (refused.run_eq (stands.after before)) rest
      rw [completes.run_eq stands stops, Session.after_append]
      rfl
termination_by structural runs

end

end Doing

/-! ## What the sink was asked to do -/

section Calls

variable [Sink σ]

/-- A sink that passes its calls on fails only if the sink behind it does. -/
theorem Sink.Unfailing.of_passes {τ : Type} [Sink τ] {behind : τ → σ}
    (passes : ∀ (call : Call) (sink : τ), (call.on sink).1 = (call.on (behind sink)).1 ∧
      behind (call.on sink).2 = (call.on (behind sink)).2)
    {sink : τ} (unfailing : Unfailing (behind sink)) : Unfailing sink := by
  intro before
  induction before generalizing sink with
  | nil =>
      intro call
      exact (passes call sink).1.trans (unfailing [] call)
  | cons first rest ih =>
      apply ih
      rw [(passes first sink).2]
      exact (unfailing.on first).2

/-- What a sink shows of each call, it shows of all in their order. -/
theorem Sink.shown_after {γ : Type} (shown : σ → List γ) (ofCall : Call → List γ)
    (shows : ∀ (call : Call) (sink : σ), shown (call.on sink).2 = shown sink ++ ofCall call)
    (sink : σ) (calls : List Call) :
    shown (after sink calls) = shown sink ++ calls.flatMap ofCall := by
  induction calls generalizing sink with
  | nil => exact (List.append_nil _).symm
  | cons call rest ih =>
      show shown (after (call.on sink).2 rest) = _
      rw [ih, shows, List.flatMap_cons, List.append_assoc]

theorem Recorded.unfailing {recorded : Recorded σ} (unfailing : Sink.Unfailing recorded.sink) :
    Sink.Unfailing recorded :=
  .of_passes (fun call recorded => by simp [on_eq_pass, pass]) unfailing

theorem Recorded.handed_after (recorded : Recorded σ) (calls : List Sink.Call) :
    (Sink.after recorded calls).handed = recorded.handed ++ calls.flatMap Sink.Call.bytes := by
  apply Sink.shown_after handed Sink.Call.bytes
  intro call recorded
  rw [on_eq_pass]
  rfl

/-- A sink, and the calls that were made on it. -/
structure Logged (σ : Type) where
  sink : σ
  calls : List Sink.Call

namespace Logged

/-- Passes a call on and logs it. -/
def pass (logged : Logged σ) (call : Sink.Call) : Except String Unit × Logged σ :=
  ((call.on logged.sink).1, ⟨(call.on logged.sink).2, logged.calls ++ [call]⟩)

instance : Sink (Logged σ) where
  write logged text := logged.pass (.write text)
  flush logged := logged.pass .flush

theorem on_eq_pass (call : Sink.Call) (logged : Logged σ) : call.on logged = logged.pass call := by
  cases call with
  | write text => rfl
  | flush => rfl

theorem unfailing {logged : Logged σ} (unfailing : Sink.Unfailing logged.sink) :
    Sink.Unfailing logged :=
  .of_passes (fun call logged => by simp [on_eq_pass, pass]) unfailing

theorem calls_after (logged : Logged σ) (made : List Sink.Call) :
    (Sink.after logged made).calls = logged.calls ++ made := by
  have each : (Sink.after logged made).calls = logged.calls ++ made.flatMap ([·]) := by
    apply Sink.shown_after calls ([·])
    intro call logged
    rw [on_eq_pass]
    rfl
  rw [each, List.flatMap_singleton']

end Logged

/-- The session with a log of the calls made from now on. -/
def Session.logged (session : Session σ) : Session (Logged σ) :=
  { session with sink := ⟨session.sink, []⟩ }

/-- The calls that an action makes. -/
def Run.calls {α : Type} (action : Run (Logged σ) α) (session : Session σ) : List Sink.Call :=
  (action.run session.logged).2.sink.calls

def Sink.Call.isFlush : Call → Bool
  | flush => true
  | write _ => false

end Calls

namespace Deed

/-- The bytes that deeds write show their values. -/
theorem bytes_calls (deeds : List Deed) :
    (deeds.flatMap calls).flatMap Sink.Call.bytes =
      Limited.bytes (Node.printed (deeds.filterMap shown?)) := by
  induction deeds with
  | nil => rfl
  | cons deed rest ih =>
      rw [List.flatMap_cons, List.flatMap_append, ih]
      cases deed with
      | bound name value => rfl
      | ended => rfl
      | completed statement value =>
          cases reducible : statement.reducible with
          | true =>
              simp [calls, shown?, reducible, Node.printed, Sink.Call.bytes, Limited.bytes_append]
          | false => simp [calls, shown?, reducible]

/-- There is a flush for each list that came to its end. -/
theorem countP_isFlush_calls (deeds : List Deed) :
    (deeds.flatMap calls).countP Sink.Call.isFlush = deeds.countP isEnd := by
  induction deeds with
  | nil => rfl
  | cons deed rest ih =>
      rw [List.flatMap_cons, List.countP_append, ih, List.countP_cons]
      cases deed with
      | bound name value => simp [calls, isEnd]
      | ended =>
          simp [calls, isEnd, Sink.Call.isFlush]
          omega
      | completed statement value =>
          cases reducible : statement.reducible with
          | true => simp [calls, isEnd, reducible, Sink.Call.isFlush]
          | false => simp [calls, isEnd, reducible]

end Deed

/-! ## The account of a run -/

/-- Each statement of the list is completed, in order. -/
theorem Completes.sublist {env : Environment} {statements values : List Node}
    {deeds : List Deed} (completes : Completes env statements values deeds) :
    (List.zipWith Deed.completed statements values).Sublist deeds := by
  match completes with
  | .nil => exact .slnil
  | .cons _ others =>
      rw [List.zipWith_cons_cons]
      exact (others.sublist.cons_cons _).trans (List.sublist_append_right _ _)
termination_by structural completes

/-- The deeds are all that the run of a program does, and it ends in the result. -/
structure CarriedOut [Sink σ] (program : Node) (session : Session σ)
    (result : Except Fault (List Node)) (deeds : List Deed) : Prop where
  result_eq : (program.run.run session).1 = result
  /-- Also after a fault, the names of the definitions before it are bound. -/
  env_eq : (program.run.run session).2.env = session.env.after deeds
  written_eq : Run.written program.run session =
    Limited.bytes (Node.printed (deeds.filterMap Deed.shown?))
  flushes_eq : (Run.calls program.run session).countP Sink.Call.isFlush = deeds.countP Deed.isEnd
  /-- There is one value for each statement, in their order. -/
  values : ∀ values, result = .ok values →
    values.length = program.statements.length ∧
      (List.zipWith Deed.completed program.statements values).Sublist deeds
  /-- The statements before the one that ends in a fault have values, and those after it could
  as well be others. -/
  stops : ∀ fault, result = .error fault → ∃ front statement rest values,
    program.statements = front ++ statement :: rest ∧
      ((Node.program front).run.run session).1 = .ok values ∧
      ∀ others, (Node.program (front ++ statement :: others)).run.run session =
        program.run.run session

/-- **A run writes what it has completed**, in order of completion, and flushes where a list of
statements ends. -/
theorem run_carries_out_deeds [Sink σ] (program : Node) (session : Session σ)
    (unfailing : Sink.Unfailing session.sink) :
    (∃ result deeds, Runs session.env program.statements result deeds) ∧
      ∀ result deeds, Runs session.env program.statements result deeds →
        CarriedOut program session result deeds := by
  refine ⟨exists_runs _ _, fun result deeds runs => ?_⟩
  have stands : session.Stands session.env := ⟨rfl, unfailing⟩
  have run_eq : program.run.run session = (result, session.after deeds) := runs.run_eq stands
  have recorded : program.run.run session.recorded = (result, session.recorded.after deeds) :=
    runs.run_eq ⟨rfl, Recorded.unfailing unfailing⟩
  have logged : program.run.run session.logged = (result, session.logged.after deeds) :=
    runs.run_eq ⟨rfl, Logged.unfailing unfailing⟩
  constructor
  · rw [run_eq]
  · rw [run_eq, Session.env_after]
  · rw [Run.written, recorded, Session.sink_after, Recorded.handed_after, ← Deed.bytes_calls]
    rfl
  · rw [Run.calls, logged, Session.sink_after, Logged.calls_after, ← Deed.countP_isFlush_calls]
    rfl
  · rintro values rfl
    generalize program.statements = statements at runs
    cases runs with
    | through completes =>
        exact ⟨completes.length_eq,
          completes.sublist.trans (List.sublist_append_left _ _)⟩
  · rintro fault rfl
    generalize isList : program.statements = statements at runs
    cases runs with
    | @stopped _ front rest values statement _ _ _ completes refused =>
        refine ⟨front, statement, rest, values, rfl, ?_, fun others => ?_⟩
        · have through := (Runs.through completes).run_eq stands
          exact congrArg Prod.fst through
        · have stopped : Runs session.env (front ++ statement :: others) _ _ :=
            .stopped completes refused
          rw [run_eq]
          exact stopped.run_eq stands

/-- A list in a definition comes to its end; one in a branch is stopped, and with it the
program. -/
theorem deeds_of_lists_inside :
    let program := Node.program [
      .definition "p" (.program [.ref "x", .string "unseen"]),
      .conditional (.boolean true) (.program [.ref "x", .ref "y"]) (.ref "x"),
      .ref "x"]
    let session := (Session.start Transcript.empty).define "x" (.string "s")
    ∃ deeds, CarriedOut program session (.error (.undefinedVariable "y")) deeds ∧
      Runs session.env program.statements (.error (.undefinedVariable "y")) deeds ∧
      Limited.bytes (Node.printed (deeds.filterMap Deed.shown?)) =
        Limited.bytes "\"s\"\n(define p x\n\"unseen\")\n\"s\"\n" ∧
      deeds.countP Deed.isEnd = 1 := by
  intro program session
  obtain ⟨⟨result, deeds, runs⟩, account⟩ :=
    run_carries_out_deeds program session (Transcript.unfailing _)
  have carried := account result deeds runs
  have refused : result = .error (.undefinedVariable "y") := carried.result_eq.symm.trans rfl
  subst refused
  exact ⟨deeds, carried, runs, carried.written_eq.symm.trans rfl, carried.flushes_eq.symm.trans rfl⟩

end ColonLisp
