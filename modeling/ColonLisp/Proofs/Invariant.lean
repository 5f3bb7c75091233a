/-
# Proofs.Invariant -- what a run of the evaluator keeps

An `Invariant` holds of sessions in which every name is bound to a node of some class, and goes
on to hold when a name is bound to such a node.  It may say more, about the sink for instance.

`Keeps` says of an action that the invariant holds after it, however it ends; that its result,
if it has one, is as stated; and that its fault, if it has one, is one that nodes of the class
give rise to (`Blames`).  Such actions compose (`Keeps.bind`), so the evaluator is followed
node by node:

* an expression is kept if the class has the definitions in it (`Keeps.eval_of_isExpression`);
* a node with programs inside it is kept if the class has all definitions and is closed under
  programs, and the actions on the sink are kept (`Keeps.eval`, `Keeps.evalAll`).
-/
import ColonLisp.Proofs.Pairing
import Std.Data.TreeMap.Lemmas

set_option autoImplicit false

namespace ColonLisp

/-! ## What names are bound to -/

/-- Every name is bound to a node of the class, in every scope. -/
def Environment.HoldsOnly (good : Node → Prop) (env : Environment) : Prop :=
  ∀ scope ∈ env.scopes, ∀ (name : String) (value : Node), scope[name]? = some value → good value

namespace Environment.HoldsOnly

variable {good : Node → Prop} {env : Environment}

theorem empty : Environment.empty.HoldsOnly good := by
  intro scope member name value bound
  cases List.mem_singleton.mp member
  simp at bound

theorem enter (holds : env.HoldsOnly good) : env.enter.HoldsOnly good := by
  intro scope member name value bound
  rw [scopes_enter] at member
  rcases List.mem_cons.mp member with rfl | outside
  · simp at bound
  · exact holds scope outside name value bound

/-- Leaving a scope adds none. -/
theorem exit (holds : env.HoldsOnly good) : env.exit.HoldsOnly good := by
  obtain ⟨inner, stack⟩ := env.exists_scopes_eq
  cases around : env.outer with
  | nil =>
      rw [around] at stack
      rw [exit_eq_self stack]
      exact holds
  | cons next outer =>
      rw [around] at stack
      intro scope member
      rw [scopes_exit stack] at member
      exact holds scope (stack ▸ List.mem_cons_of_mem inner member)

theorem define (holds : env.HoldsOnly good) (name : String) {value : Node}
    (isGood : good value) : (env.define name value).HoldsOnly good := by
  obtain ⟨inner, stack⟩ := env.exists_scopes_eq
  intro scope member other found bound
  rw [scopes_define stack] at member
  rcases List.mem_cons.mp member with rfl | outside
  · rw [Std.TreeMap.getElem?_insert] at bound
    split at bound
    · cases bound
      exact isGood
    · exact holds inner (stack ▸ List.mem_cons_self) other found bound
  · exact holds scope (stack ▸ List.mem_cons_of_mem inner outside) other found bound

theorem find? (holds : env.HoldsOnly good) {name : String} {value : Node}
    (found : env.find? name = some value) : good value := by
  rw [find?_eq] at found
  obtain ⟨scope, member, bound⟩ := List.exists_of_findSome?_eq_some found
  exact holds scope member name value bound

end Environment.HoldsOnly

/-! ## Invariants -/

/-- Something that holds of sessions in which names are bound to nodes of a class only. -/
structure Invariant (σ : Type) where
  holds : Session σ → Prop
  good : Node → Prop
  string : ∀ text, good (.string text)
  boolean : ∀ value, good (.boolean value)
  find? : ∀ {s name value}, holds s → s.env.find? name = some value → good value
  define : ∀ {s}, holds s → ∀ name {value}, good value → holds (s.define name value)
  note : ∀ {s}, holds s → ∀ event, holds (s.note event)

namespace Invariant

variable {σ α β : Type}

/-- The faults that an evaluator meets when all nodes it has to do with are good. -/
inductive Blames (inv : Invariant σ) : Fault → Prop where
  | undefined (name : String) : Blames inv (.undefinedVariable name)
  | mismatch {value : Node} :
      inv.good value → (∀ truth, value ≠ .boolean truth) →
      Blames inv (.typeMismatch "boolean" value.typeName)
  | output (reason : String) : Blames inv (.output reason)

/-- How an action may end. -/
inductive Ends (inv : Invariant σ) (result : α → Prop) : Except Fault α × Session σ → Prop where
  | value {value : α} {s : Session σ} : result value → inv.holds s → Ends inv result (.ok value, s)
  | fault {fault : Fault} {s : Session σ} :
      inv.Blames fault → inv.holds s → Ends inv result (.error fault, s)

theorem Ends.holds {inv : Invariant σ} {result : α → Prop} {ended : Except Fault α × Session σ}
    (ends : inv.Ends result ended) : inv.holds ended.2 := by
  cases ends with
  | value _ holds => exact holds
  | fault _ holds => exact holds

/-- The action keeps the invariant, and its result is as stated. -/
structure Keeps (inv : Invariant σ) (action : Run σ α) (result : α → Prop) : Prop where
  ends : ∀ {s}, inv.holds s → inv.Ends result (action.run s)

namespace Keeps

variable {inv : Invariant σ}

theorem pure {result : α → Prop} {value : α} (is : result value) :
    inv.Keeps (Pure.pure value) result :=
  ⟨fun holds => .value is holds⟩

theorem throw {result : α → Prop} {fault : Fault} (blames : inv.Blames fault) :
    inv.Keeps (MonadExcept.throw fault) result :=
  ⟨fun holds => .fault blames holds⟩

/-- Actions that are kept compose: the second may rely on what the first returned. -/
theorem bind {first : Run σ α} {next : α → Run σ β} {middle : α → Prop} {result : β → Prop}
    (kept : inv.Keeps first middle)
    (rest : ∀ value, middle value → inv.Keeps (next value) result) :
    inv.Keeps (first >>= next) result := by
  refine ⟨fun {s} holds => ?_⟩
  rw [Run.run_bind]
  have ends := kept.ends holds
  generalize first.run s = ended at ends ⊢
  cases ends with
  | value is holds => exact (rest _ is).ends holds
  | fault blames holds => exact .fault blames holds

theorem lookup (name : String) : inv.Keeps (Run.lookup name) inv.good := by
  refine ⟨fun {s} holds => ?_⟩
  change inv.Ends inv.good (s.env.get name, s)
  unfold Environment.get
  cases found : s.env.find? name with
  | some value => exact .value (inv.find? holds found) holds
  | none => exact .fault (.undefined name) holds

theorem define (name : String) {value : Node} (good : inv.good value) :
    inv.Keeps (Run.define name value) fun _ => True :=
  ⟨fun holds => .value trivial (inv.define holds name good)⟩

theorem note (event : Event) : inv.Keeps (Run.note event) fun _ => True :=
  ⟨fun holds => .value trivial (inv.note holds event)⟩

/-- An action on the sink, if nothing is said about the sink. -/
theorem onSink (anySink : ∀ {s sink}, inv.holds s → inv.holds { s with sink := sink })
    (action : σ → Except String Unit × σ) : inv.Keeps (Run.onSink action) fun _ => True := by
  refine ⟨fun {s} holds => ?_⟩
  rw [Run.run_onSink]
  cases (action s.sink).1 with
  | ok _ => exact .value trivial (anySink holds)
  | error reason => exact .fault (.output reason) (anySink holds)

/-- An action in a scope of its own. -/
theorem inScope (enter : ∀ {s}, inv.holds s → inv.holds s.enter)
    (exit : ∀ {s}, inv.holds s → inv.holds s.exit) {action : Run σ α} {result : α → Prop}
    (kept : inv.Keeps action result) : inv.Keeps (Run.inScope action) result := by
  refine ⟨fun {s} holds => ?_⟩
  have run : (Run.inScope action).run s = ((action.run s.enter).1, (action.run s.enter).2.exit) :=
    rfl
  rw [run]
  have ends := kept.ends (enter holds)
  generalize action.run s.enter = ended at ends ⊢
  cases ends with
  | value is holds => exact .value is (exit holds)
  | fault blames holds => exact .fault blames (exit holds)

/-! ## Following the evaluator -/

variable [Sink σ]

/-- A definition is its own value, so it has to be good itself. -/
theorem definition {name : String} {value : Node} (kept : inv.Keeps value.eval inv.good)
    (good : inv.good (.definition name value)) :
    inv.Keeps (Node.definition name value).eval inv.good := by
  rw [Node.eval]
  exact kept.bind fun found isGood => (define name isGood).bind fun _ _ => pure good

theorem conditional {condition onTrue onFalse : Node}
    (first : inv.Keeps condition.eval inv.good) (second : inv.Keeps onTrue.eval inv.good)
    (third : inv.Keeps onFalse.eval inv.good) :
    inv.Keeps (Node.conditional condition onTrue onFalse).eval inv.good := by
  rw [Node.eval]
  refine first.bind fun chosen good => ?_
  cases chosen with
  | boolean value =>
      cases value with
      | true => exact second
      | false => exact third
  | program | definition | conditional | ref | string =>
      exact throw (.mismatch good fun _ isBoolean => by cases isBoolean)

theorem ref (name : String) : inv.Keeps (Node.ref name).eval inv.good := by
  rw [Node.eval]
  exact lookup name

theorem string (text : String) : inv.Keeps (Node.string text).eval inv.good := by
  rw [Node.eval]
  exact pure (inv.string text)

theorem boolean (value : Bool) : inv.Keeps (Node.boolean value).eval inv.good := by
  rw [Node.eval]
  exact pure (inv.boolean value)

/-- An expression of good definitions has a good value, whatever the sink does. -/
theorem eval_of_isExpression {names : String → Prop}
    (definitions : ∀ {name value}, (Node.definition name value).IsExpression names →
      inv.good (.definition name value))
    {node : Node} (expression : node.IsExpression names) : inv.Keeps node.eval inv.good := by
  induction expression with
  | string text => exact string text
  | boolean value => exact boolean value
  | ref _ => exact ref _
  | definition named expression kept =>
      exact definition kept (definitions (.definition named expression))
  | conditional _ _ _ first second third => exact conditional first second third

theorem echo (sinks : ∀ action, inv.Keeps (Run.onSink action) fun _ => True)
    (statement value : Node) : inv.Keeps (Run.echo statement value) fun _ => True := by
  unfold Run.echo
  split
  · exact sinks _
  · exact pure trivial

mutual

/-- A node has a good value if every definition and every program of good nodes is good. -/
theorem eval (definitions : ∀ name value, inv.good (.definition name value))
    (programs : ∀ values, (∀ value ∈ values, inv.good value) → inv.good (.program values))
    (sinks : ∀ action, inv.Keeps (Run.onSink action) fun _ => True) :
    ∀ node : Node, inv.Keeps node.eval inv.good
  | .program statements => by
      rw [Node.eval]
      exact (evalAll definitions programs sinks statements).bind fun values good =>
        pure (programs values good)
  | .definition name value =>
      definition (eval definitions programs sinks value) (definitions name value)
  | .conditional condition onTrue onFalse =>
      conditional (eval definitions programs sinks condition)
        (eval definitions programs sinks onTrue) (eval definitions programs sinks onFalse)
  | .ref name => ref name
  | .string text => string text
  | .boolean value => boolean value

theorem evalAll (definitions : ∀ name value, inv.good (.definition name value))
    (programs : ∀ values, (∀ value ∈ values, inv.good value) → inv.good (.program values))
    (sinks : ∀ action, inv.Keeps (Run.onSink action) fun _ => True) :
    ∀ nodes : List Node,
      inv.Keeps (Node.evalAll nodes) fun values => ∀ value ∈ values, inv.good value
  | [] => by
      rw [Node.evalAll]
      exact (sinks _).bind fun _ _ => pure (by simp)
  | statement :: rest => by
      rw [Node.evalAll_cons]
      refine (eval definitions programs sinks statement).bind fun value good => ?_
      refine (note _).bind fun _ _ => (echo sinks statement value).bind fun _ _ => ?_
      exact (evalAll definitions programs sinks rest).bind fun values others =>
        pure (List.forall_mem_cons.mpr ⟨good, others⟩)

end

end Keeps

end Invariant

end ColonLisp
