/-
# Proofs.Values -- evaluation yields values

A value is a literal, a definition with whatever stands inside it, or a program of values.  A
session may be asked to run programs and to evaluate nodes, in its own scope or in a new one,
any number of times, and goes on after a fault.  `performAll_yields_values`: at any point of a
session names are bound to values only, in every scope, and what an action returns are values.
So a condition that is no boolean is a text, a definition or a program, and a type mismatch
names one of these.

An action keeps this (`Invariant.keeps_action`), so by induction a list of actions does.
-/
import ColonLisp.Proofs.Invariant

set_option autoImplicit false

namespace ColonLisp

variable {σ : Type}

/-! ## Values -/

/-- Nodes that have nothing left to evaluate. -/
inductive Node.IsValue : Node → Prop where
  | string (text : String) : IsValue (.string text)
  | boolean (truth : Bool) : IsValue (.boolean truth)
  | definition (name : String) (value : Node) : IsValue (.definition name value)
  | program {values : List Node} : (∀ value ∈ values, IsValue value) → IsValue (.program values)

theorem Node.IsValue.typeName_of_not_boolean {value : Node} (isValue : value.IsValue)
    (other : ∀ truth, value ≠ .boolean truth) :
    value.typeName = "string" ∨ value.typeName = "definition" ∨ value.typeName = "program" := by
  cases isValue with
  | string => exact .inl rfl
  | boolean truth => exact absurd rfl (other truth)
  | definition => exact .inr (.inl rfl)
  | program => exact .inr (.inr rfl)

/-! ## Sessions -/

/-- What a session can be asked to do. -/
inductive Action where
  | run (program : Node)
  | evaluate (node : Node)
  /-- Evaluates in a new scope, which is left again. -/
  | evaluateScoped (node : Node)

/-- The nodes that an action returns. -/
def Action.nodes [Sink σ] : Action → Run σ (List Node)
  | run program => program.run
  | evaluate node => return [← node.eval]
  | evaluateScoped node => return [← node.evalScoped]

/-- Performs actions in turn: how each of them ended, and the session after the last.  A fault
ends its own action only. -/
def Session.performAll [Sink σ] :
    List Action → Session σ → List (Except Fault (List Node)) × Session σ
  | [], session => ([], session)
  | action :: rest, session =>
      let (result, next) := action.nodes.run session
      let (results, last) := performAll rest next
      (result :: results, last)

/-! ## The invariant -/

namespace Invariant

/-- All names are bound to values. -/
def values : Invariant σ where
  holds s := s.env.HoldsOnly Node.IsValue
  good := Node.IsValue
  string := .string
  boolean := .boolean
  find? holds found := holds.find? found
  define holds name _ isValue := holds.define name isValue
  note holds _ := holds

theorem typeMismatch_of_blames {expected got : String}
    (blames : (values (σ := σ)).Blames (.typeMismatch expected got)) :
    expected = "boolean" ∧ (got = "string" ∨ got = "definition" ∨ got = "program") := by
  cases blames with
  | mismatch isValue other => exact ⟨rfl, isValue.typeName_of_not_boolean other⟩

variable [Sink σ]

theorem keeps_eval (node : Node) : (values (σ := σ)).Keeps node.eval Node.IsValue :=
  .eval Node.IsValue.definition (fun _ => Node.IsValue.program) (.onSink id) node

theorem keeps_action (action : Action) :
    (values (σ := σ)).Keeps action.nodes fun nodes => ∀ node ∈ nodes, node.IsValue := by
  cases action with
  | run program =>
      exact .evalAll Node.IsValue.definition (fun _ => Node.IsValue.program) (.onSink id) _
  | evaluate node =>
      exact (keeps_eval node).bind fun value isValue => .pure (by simpa using isValue)
  | evaluateScoped node =>
      have kept := Keeps.inScope (fun {_} holds => Environment.HoldsOnly.enter holds)
        (fun {_} holds => Environment.HoldsOnly.exit holds) (keeps_eval (σ := σ) node)
      exact kept.bind fun value isValue => .pure (by simpa using isValue)

/-- Every action in turn starts and ends with names bound to values. -/
theorem values_performAll (actions : List Action) {session : Session σ}
    (holds : values.holds session) :
    values.holds (session.performAll actions).2 ∧
      ∀ result ∈ (session.performAll actions).1,
        ∃ last : Session σ,
          values.Ends (fun nodes => ∀ node ∈ nodes, node.IsValue) (result, last) := by
  induction actions generalizing session with
  | nil => exact ⟨holds, by simp [Session.performAll]⟩
  | cons action rest ih =>
      have ends := (keeps_action action).ends holds
      generalize ran : action.nodes.run session = ended at ends
      obtain ⟨result, next⟩ := ended
      obtain ⟨holdsLast, others⟩ := ih ends.holds
      have steps : session.performAll (action :: rest) =
          (result :: (next.performAll rest).1, (next.performAll rest).2) := by
        rw [Session.performAll, ran]
      rw [steps]
      exact ⟨holdsLast, List.forall_mem_cons.mpr ⟨⟨next, ends⟩, others⟩⟩

end Invariant

/-- **Evaluation yields values**, whatever actions are performed and whatever the sink does.
After any of them every scope binds names to values only, an action that succeeds returns
values, and a type mismatch demands a boolean and names the type of another value. -/
theorem performAll_yields_values [Sink σ] (actions : List Action) (sink : σ) :
    let (results, session) := (Session.start sink).performAll actions
    (∀ scope ∈ session.env.scopes, ∀ (name : String) (value : Node),
        scope[name]? = some value → value.IsValue) ∧
      (∀ nodes, .ok nodes ∈ results → ∀ node ∈ nodes, node.IsValue) ∧
      ∀ expected got, .error (.typeMismatch expected got) ∈ results →
        expected = "boolean" ∧ (got = "string" ∨ got = "definition" ∨ got = "program") := by
  have start : Invariant.values.holds (Session.start sink) := .empty
  obtain ⟨holds, ends⟩ := Invariant.values_performAll actions start
  refine ⟨holds, fun nodes member => ?_, fun expected got member => ?_⟩
  · obtain ⟨last, ended⟩ := ends _ member
    cases ended with
    | value areValues _ => exact areValues
  · obtain ⟨last, ended⟩ := ends _ member
    cases ended with
    | fault blames _ => exact Invariant.typeMismatch_of_blames blames

end ColonLisp
