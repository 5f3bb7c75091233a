/-
# Proofs.Frame -- what evaluation leaves alone

`eval_and_run_frame`: however the evaluation of a node ends, in a value, in a fault or because
the sink failed, the scopes around the innermost one are as they were, no name of the innermost
scope is lost, and every name that no definition inside the node defines is bound as it was.  A
definition that is only the value of a name is not inside the node, so it binds nothing.

An action may be left by a fault at any point, so what it did up to there is described without
its result: it defined names, one after the other (`Environment.Grows`).  This is kept by
composing actions (`BindsOnly.bind`), and by induction on the node every name defined has a
definition inside it (`BindsOnly.eval`, `BindsOnly.evalAll`).  The frame is read off at the end
(`Environment.Grows.frame`).
-/
import ColonLisp.Proofs.Pairing
import Std.Data.TreeMap.Lemmas

set_option autoImplicit false

namespace ColonLisp

/-! ## Environments that grow -/

namespace Environment

/-- What the innermost scope binds. -/
def inner (env : Environment) : Scope := env.scopes.headD ∅

theorem scopes_eq (env : Environment) : env.scopes = env.inner :: env.outer := by
  obtain ⟨scope, stack⟩ := env.exists_scopes_eq
  rw [inner, stack, List.headD_cons]

theorem inner_define (env : Environment) (name : String) (value : Node) :
    (env.define name value).inner = env.inner.insert name value := by
  rw [inner, scopes_define env.scopes_eq, List.headD_cons]

/-- The second environment is the first one after definitions of names of a class. -/
inductive Grows (names : String → Prop) (env : Environment) : Environment → Prop where
  | refl : Grows names env env
  | define {grown : Environment} {name : String} (value : Node) :
      Grows names env grown → names name → Grows names env (grown.define name value)

/-- Only the innermost scope differs, and in it only names of a class, none of which is lost. -/
structure Frame (names : String → Prop) (before after : Environment) : Prop where
  depth : after.depth = before.depth
  outer : after.outer = before.outer
  kept : ∀ name, name ∈ before.inner → name ∈ after.inner
  untouched : ∀ name, ¬ names name → after.inner[name]? = before.inner[name]?

namespace Grows

variable {names : String → Prop} {env grown last : Environment}

theorem trans (first : Grows names env grown) (second : Grows names grown last) :
    Grows names env last := by
  induction second with
  | refl => exact first
  | define value _ named ih => exact .define value ih named

theorem frame (grows : Grows names env grown) : Frame names env grown := by
  induction grows with
  | refl => exact ⟨rfl, rfl, fun _ => id, fun _ _ => rfl⟩
  | @define grown name value _ named ih =>
      refine ⟨?_, ?_, ?_, ?_⟩
      · rw [depth_define, ih.depth]
      · rw [outer_define, ih.outer]
      · intro other bound
        rw [inner_define, Std.TreeMap.mem_insert]
        exact .inr (ih.kept other bound)
      · intro other unnamed
        have different : name ≠ other := by
          rintro rfl
          exact unnamed named
        rw [inner_define, Std.TreeMap.getElem?_insert, if_neg (by simpa using different)]
        exact ih.untouched other unnamed

/-- If the class has no names, there is no definition. -/
theorem eq_of_not (grows : Grows names env grown) (none : ∀ name, ¬ names name) : grown = env := by
  cases grows with
  | refl => rfl
  | define _ _ named => exact absurd named (none _)

end Grows

end Environment

/-! ## Definitions inside a node -/

/-- Inside the node stands a definition of the name. -/
inductive Node.Defines (name : String) : Node → Prop where
  | here (value : Node) : Defines name (.definition name value)
  | value {other : String} {value : Node} :
      Defines name value → Defines name (.definition other value)
  | condition {condition onTrue onFalse : Node} :
      Defines name condition → Defines name (.conditional condition onTrue onFalse)
  | onTrue {condition onTrue onFalse : Node} :
      Defines name onTrue → Defines name (.conditional condition onTrue onFalse)
  | onFalse {condition onTrue onFalse : Node} :
      Defines name onFalse → Defines name (.conditional condition onTrue onFalse)
  | statement {statements : List Node} {statement : Node} :
      statement ∈ statements → Defines name statement → Defines name (.program statements)

theorem Node.Defines.of_mem_statements {name : String} {node statement : Node}
    (member : statement ∈ node.statements) (defines : statement.Defines name) :
    node.Defines name := by
  cases node with
  | program statements => exact .statement member defines
  | definition | conditional | ref | string | boolean =>
      cases List.mem_singleton.mp member
      exact defines

/-! ## What an action binds -/

variable {σ α β : Type}

/-- However the action ends, it has defined names of the class and changed no scope
otherwise. -/
def BindsOnly (names : String → Prop) (action : Run σ α) : Prop :=
  ∀ s : Session σ, Environment.Grows names s.env (action.run s).2.env

namespace BindsOnly

variable {names : String → Prop}

theorem pure (value : α) : BindsOnly names (Pure.pure value : Run σ α) := fun _ => .refl

theorem throw (fault : Fault) : BindsOnly names (MonadExcept.throw fault : Run σ α) :=
  fun _ => .refl

/-- If the first action is left by a fault, the second has no part in what was bound. -/
theorem bind {first : Run σ α} {next : α → Run σ β} (before : BindsOnly names first)
    (after : ∀ value, BindsOnly names (next value)) : BindsOnly names (first >>= next) := by
  intro s
  have grows := before s
  rw [Run.run_bind]
  generalize first.run s = ended at grows ⊢
  obtain ⟨fault | value, middle⟩ := ended
  · exact grows
  · exact grows.trans (after value middle)

theorem lookup (name : String) : BindsOnly names (Run.lookup name : Run σ Node) := fun _ => .refl

theorem define {name : String} (named : names name) (value : Node) :
    BindsOnly names (Run.define name value : Run σ Unit) :=
  fun _ => .define value .refl named

theorem note (event : Event) : BindsOnly names (Run.note event : Run σ Unit) := fun _ => .refl

theorem onSink (action : σ → Except String Unit × σ) : BindsOnly names (Run.onSink action) :=
  fun _ => .refl

variable [Sink σ]

theorem echo (statement value : Node) :
    BindsOnly names (Run.echo statement value : Run σ Unit) := by
  unfold Run.echo
  split
  · exact onSink _
  · exact pure ()

mutual

theorem eval : ∀ node : Node, (∀ name, node.Defines name → names name) →
    BindsOnly names (node.eval : Run σ Node)
  | .program statements, named => by
      rw [Node.eval]
      refine (evalAll statements ?_).bind fun values => pure _
      intro statement member name defines
      exact named name (.statement member defines)
  | .definition name value, named => by
      rw [Node.eval]
      refine (eval value fun other defines => named other (.value defines)).bind fun found => ?_
      exact (define (named name (.here value)) found).bind fun _ => pure _
  | .conditional condition onTrue onFalse, named => by
      rw [Node.eval]
      refine (eval condition fun name defines => named name (.condition defines)).bind ?_
      intro chosen
      cases chosen with
      | boolean truth =>
          cases truth with
          | true => exact eval onTrue fun name defines => named name (.onTrue defines)
          | false => exact eval onFalse fun name defines => named name (.onFalse defines)
      | program | definition | conditional | ref | string => exact throw _
  | .ref name, _ => by
      rw [Node.eval]
      exact lookup name
  | .string text, _ => by
      rw [Node.eval]
      exact pure _
  | .boolean truth, _ => by
      rw [Node.eval]
      exact pure _

theorem evalAll : ∀ nodes : List Node,
    (∀ node ∈ nodes, ∀ name, node.Defines name → names name) →
    BindsOnly names (Node.evalAll nodes : Run σ (List Node))
  | [], _ => by
      rw [Node.evalAll]
      exact (onSink _).bind fun _ => pure _
  | statement :: rest, named => by
      obtain ⟨first, others⟩ := List.forall_mem_cons.mp named
      rw [Node.evalAll_cons]
      refine (eval statement first).bind fun value => (note _).bind fun _ => ?_
      refine (echo statement value).bind fun _ => ?_
      exact (evalAll rest others).bind fun _ => pure _

end

theorem run (program : Node) :
    BindsOnly (fun name => program.Defines name) (program.run : Run σ (List Node)) :=
  evalAll program.statements fun _ member _ defines => .of_mem_statements member defines

end BindsOnly

/-- **Evaluation touches only the innermost scope, and in it only the names that are defined
inside the node**, for every session, every sink and every way to end. -/
theorem eval_and_run_frame [Sink σ] (node : Node) (session : Session σ) :
    let defined := fun name => node.Defines name
    Environment.Frame defined session.env (node.eval.run session).2.env ∧
      Environment.Frame defined session.env (node.run.run session).2.env ∧
      ((∀ name, ¬ node.Defines name) →
        (node.eval.run session).2.env = session.env ∧
          (node.run.run session).2.env = session.env) := by
  intro defined
  have evaluates : Environment.Grows defined session.env (node.eval.run session).2.env :=
    BindsOnly.eval node (fun _ => id) session
  have runs : Environment.Grows defined session.env (node.run.run session).2.env :=
    BindsOnly.run node session
  refine ⟨evaluates.frame, runs.frame, fun none => ?_⟩
  exact ⟨evaluates.eq_of_not none, runs.eq_of_not none⟩

/-- A definition that a name is bound to is its value and nothing more. -/
example :
    let session := (Session.start Transcript.empty).define "f" (.definition "x" (.boolean true))
    ((Node.ref "f").eval.run session).1 = .ok (.definition "x" (.boolean true)) ∧
      ((Node.ref "f").eval.run session).2.env.find? "x" = none :=
  ⟨rfl, rfl⟩

end ColonLisp
