/-
# Proofs.ScopeStack -- an environment answers like a stack of maps

An environment keeps its scopes by index and follows indices to look a name up.  A
`ScopeStack` is what that stands for: maps on top of each other, with no index in it.
`performAll_environment`: whatever operations are performed on a new environment, in any
order and number, the answers are those of a stack.  The array of scopes is never empty and
its indices stay as they should be, so a walk over them ends and goes to no index without a
scope.

An environment and a stack agree if they have the same scopes (`Represents`).  Each operation
is answered alike and keeps them so (`Represents.perform`), and by induction every list of
operations does (`Represents.performAll`).
-/
import ColonLisp.Environment

set_option autoImplicit false

namespace ColonLisp

/-! ## Operations -/

/-- What can be asked of nested scopes. -/
class HasScopes (ε : Type) where
  enter : ε → ε
  exit : ε → ε
  define : ε → String → Node → ε
  get : ε → String → Except Fault Node
  contains : ε → String → Bool
  depth : ε → Nat

inductive Operation where
  | enter
  | exit
  | define (name : String) (value : Node)
  | get (name : String)
  | contains (name : String)
  | depth

/-- What an operation says. -/
inductive Answer where
  /-- Nothing. -/
  | done
  | value (result : Except Fault Node)
  | holds (truth : Bool)
  | count (number : Nat)

namespace Operation

variable {ε : Type} [HasScopes ε]

/-- The answer of an operation, and the scopes after it. -/
def perform : Operation → ε → Answer × ε
  | enter, env => (.done, HasScopes.enter env)
  | exit, env => (.done, HasScopes.exit env)
  | define name value, env => (.done, HasScopes.define env name value)
  | get name, env => (.value (HasScopes.get env name), env)
  | contains name, env => (.holds (HasScopes.contains env name), env)
  | depth, env => (.count (HasScopes.depth env), env)

/-- The answers of operations in turn, and the scopes after the last. -/
def performAll : List Operation → ε → List Answer × ε
  | [], env => ([], env)
  | operation :: rest, env =>
      let (answer, next) := operation.perform env
      let (answers, last) := performAll rest next
      (answer :: answers, last)

end Operation

instance : HasScopes Environment where
  enter := Environment.enter
  exit := Environment.exit
  define := Environment.define
  get := Environment.get
  contains := Environment.contains
  depth := Environment.depth

/-! ## Stacks -/

/-- Maps on top of each other; there is always one. -/
structure ScopeStack where
  top : Scope
  below : List Scope

namespace ScopeStack

/-- One map that binds nothing. -/
def empty : ScopeStack := ⟨∅, []⟩

/-- All maps, from the top down. -/
def maps (stack : ScopeStack) : List Scope := stack.top :: stack.below

/-- What the first map that binds the name binds it to. -/
def find? (stack : ScopeStack) (name : String) : Option Node := stack.maps.findSome? (·[name]?)

instance : HasScopes ScopeStack where
  enter stack := ⟨∅, stack.maps⟩
  exit stack :=
    match stack.below with
    | [] => stack
    | next :: rest => ⟨next, rest⟩
  define stack name value := { stack with top := stack.top.insert name value }
  get stack name :=
    match stack.find? name with
    | some value => .ok value
    | none => .error (.undefinedVariable name)
  contains stack name := (stack.find? name).isSome
  depth stack := stack.maps.length

end ScopeStack

/-! ## Agreement -/

/-- The environment has the maps of the stack for its scopes. -/
def Represents (env : Environment) (stack : ScopeStack) : Prop := env.scopes = stack.maps

namespace Represents

theorem empty : Represents .empty .empty := rfl

variable {env : Environment} {stack : ScopeStack}

theorem find?_eq (same : Represents env stack) (name : String) :
    env.find? name = stack.find? name := by
  rw [Environment.find?_eq, same, ScopeStack.find?]

theorem enter (same : Represents env stack) :
    Represents (HasScopes.enter env) (HasScopes.enter stack) := by
  change env.enter.scopes = ∅ :: stack.maps
  rw [Environment.scopes_enter, same]

theorem exit (same : Represents env stack) :
    Represents (HasScopes.exit env) (HasScopes.exit stack) := by
  obtain ⟨top, below⟩ := stack
  cases below with
  | nil =>
      change env.exit.scopes = [top]
      rw [Environment.exit_eq_self same]
      exact same
  | cons next rest => exact Environment.scopes_exit same

theorem define (same : Represents env stack) (name : String) (value : Node) :
    Represents (HasScopes.define env name value) (HasScopes.define stack name value) :=
  Environment.scopes_define same name value

/-- Each operation is answered alike, and the two still agree after it. -/
theorem perform (same : Represents env stack) (operation : Operation) :
    (operation.perform env).1 = (operation.perform stack).1 ∧
      Represents (operation.perform env).2 (operation.perform stack).2 := by
  cases operation with
  | enter => exact ⟨rfl, same.enter⟩
  | exit => exact ⟨rfl, same.exit⟩
  | define name value => exact ⟨rfl, same.define name value⟩
  | get name =>
      refine ⟨congrArg Answer.value ?_, same⟩
      change env.get name = _
      rw [Environment.get, same.find?_eq]
      rfl
  | contains name =>
      refine ⟨congrArg Answer.holds ?_, same⟩
      change env.contains name = _
      rw [Environment.contains, same.find?_eq]
      rfl
  | depth =>
      refine ⟨congrArg Answer.count ?_, same⟩
      change env.depth = _
      rw [← Environment.length_scopes, same]
      rfl

/-- So are operations in turn: the induction is on the operations, with the scopes left open. -/
theorem performAll (same : Represents env stack) (operations : List Operation) :
    (Operation.performAll operations env).1 = (Operation.performAll operations stack).1 := by
  induction operations generalizing env stack with
  | nil => rfl
  | cons operation rest ih =>
      obtain ⟨answer, next⟩ := same.perform operation
      simp only [Operation.performAll, answer, ih next]

end Represents

/-- **An environment answers like a stack of maps**, whatever operations are performed on it.
The indices that it keeps name the scope before, so a walk from the last scope comes to an
end within as many steps as there are scopes, at an index that has a scope. -/
theorem performAll_environment (operations : List Operation) :
    let (answers, env) := Operation.performAll operations Environment.empty
    answers = (Operation.performAll operations ScopeStack.empty).1 ∧
      0 < env.arena.slots.size ∧
      (∀ slot, env.arena.slots[0]? = some slot → slot.parent = none) ∧
      (∀ i slot, 0 < i → env.arena.slots[i]? = some slot → slot.parent = some (i - 1)) ∧
      ∀ name steps, env.arena.slots.size ≤ steps →
        (∃ value, env.arena.walk name steps (some env.arena.last) = .found value) ∨
          env.arena.walk name steps (some env.arena.last) = .absent := by
  generalize ran : Operation.performAll operations Environment.empty = ended
  obtain ⟨answers, env⟩ := ended
  refine ⟨?_, env.linked.nonempty, ?_, ?_, ?_⟩
  · rw [← Represents.empty.performAll, ran]
  · intro slot found
    obtain ⟨inside, rfl⟩ := Array.getElem?_eq_some_iff.mp found
    exact env.linked.global
  · intro i slot positive found
    obtain ⟨inside, rfl⟩ := Array.getElem?_eq_some_iff.mp found
    exact env.linked.inner i inside positive
  · intro name steps enough
    rw [env.linked.walk_last_eq name enough]
    cases env.arena.scopes.findSome? (·[name]?) with
    | some value => exact .inl ⟨value, rfl⟩
    | none => exact .inr rfl

end ColonLisp
