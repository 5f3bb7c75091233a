/-
# Environment -- nested scopes of names

An environment is an arena of scopes that is linked, so it is never empty: each scope is
inside the one before it.  A name is bound in the innermost scope only, and is looked up from
the innermost scope outwards.  The outermost scope is global and is never left.
-/
import ColonLisp.Arena
import ColonLisp.Fault

set_option autoImplicit false

namespace ColonLisp

/-- Nested scopes. -/
structure Environment where
  arena : Arena
  linked : arena.Linked

namespace Environment

/-- The global scope alone, with no names. -/
def empty : Environment := ⟨.empty, .empty⟩

instance : Inhabited Environment := ⟨empty⟩

/-- All scopes, from the inside out. -/
def scopes (env : Environment) : List Scope := env.arena.scopes

/-- The scopes around the innermost one, from the inside out. -/
def outer (env : Environment) : List Scope := env.scopes.tail

/-- How many scopes there are; one for the global scope. -/
def depth (env : Environment) : Nat := env.arena.size

/-- A new innermost scope, with no names. -/
def enter (env : Environment) : Environment := ⟨env.arena.enter, env.linked.enter⟩

/-- Leaves the innermost scope; the global scope is not left. -/
def exit (env : Environment) : Environment := ⟨env.arena.exit, env.linked.exit⟩

/-- Binds a name in the innermost scope, in place of what it was bound to there. -/
def define (env : Environment) (name : String) (value : Node) : Environment :=
  ⟨env.arena.define name value, env.linked.define name value⟩

/-- What a name is bound to in the innermost scope that binds it. -/
def find? (env : Environment) (name : String) : Option Node := (env.arena.lookup name).value?

/-- Whether some scope binds a name. -/
def contains (env : Environment) (name : String) : Bool := (env.find? name).isSome

/-- What a name is bound to; a name that no scope binds is a fault. -/
def get (env : Environment) (name : String) : Except Fault Node :=
  match env.find? name with
  | some value => .ok value
  | none => .error (.undefinedVariable name)

/-! ## The scopes after each operation -/

/-- Environments with the same scopes are the same. -/
theorem ext {env other : Environment} (same : env.scopes = other.scopes) : env = other := by
  obtain ⟨arena, linked⟩ := env
  obtain ⟨arena', linked'⟩ := other
  cases linked.eq_of_scopes linked' same
  rfl

theorem exists_scopes_eq (env : Environment) :
    ∃ inner, env.scopes = inner :: env.outer := by
  have some_scope : env.scopes ≠ [] := by
    refine List.ne_nil_of_length_pos ?_
    rw [scopes, Arena.length_scopes]
    exact env.linked.nonempty
  exact ⟨env.scopes.head some_scope, (List.cons_head_tail some_scope).symm⟩

@[simp] theorem length_scopes (env : Environment) : env.scopes.length = env.depth :=
  env.arena.length_scopes

@[simp] theorem scopes_enter (env : Environment) : env.enter.scopes = ∅ :: env.scopes :=
  env.arena.scopes_enter

theorem scopes_define {env : Environment} {inner : Scope} {outer : List Scope}
    (stack : env.scopes = inner :: outer) (name : String) (value : Node) :
    (env.define name value).scopes = inner.insert name value :: outer :=
  Arena.scopes_define stack name value

theorem scopes_exit {env : Environment} {inner next : Scope} {outer : List Scope}
    (stack : env.scopes = inner :: next :: outer) : env.exit.scopes = next :: outer :=
  Arena.scopes_exit stack

theorem exit_eq_self {env : Environment} {global : Scope} (stack : env.scopes = [global]) :
    env.exit = env := by
  refine ext ?_
  change env.arena.exit.scopes = env.arena.scopes
  rw [Arena.exit_eq_self stack]

theorem find?_eq (env : Environment) (name : String) :
    env.find? name = env.scopes.findSome? fun scope => scope[name]? := by
  rw [find?, Arena.lookup, env.linked.walk_last_eq name (Nat.le_refl _),
    Arena.Walk.value?_ofOption, scopes]

@[simp] theorem outer_enter (env : Environment) : env.enter.outer = env.scopes := by
  rw [outer, scopes_enter, List.tail_cons]

@[simp] theorem outer_define (env : Environment) (name : String) (value : Node) :
    (env.define name value).outer = env.outer := by
  obtain ⟨inner, stack⟩ := env.exists_scopes_eq
  rw [outer, scopes_define stack, List.tail_cons]

/-- Leaving a scope gives back the environment whose scopes are around it. -/
theorem exit_of_outer {env before : Environment} (outer : env.outer = before.scopes) :
    env.exit = before := by
  obtain ⟨inner, stack⟩ := env.exists_scopes_eq
  obtain ⟨next, around⟩ := before.exists_scopes_eq
  refine ext ?_
  rw [outer, around] at stack
  rw [scopes_exit stack, around]

@[simp] theorem exit_enter (env : Environment) : env.enter.exit = env :=
  exit_of_outer env.outer_enter

@[simp] theorem depth_enter (env : Environment) : env.enter.depth = env.depth + 1 := by
  rw [← length_scopes, scopes_enter, List.length_cons, length_scopes]

@[simp] theorem depth_define (env : Environment) (name : String) (value : Node) :
    (env.define name value).depth = env.depth := by
  obtain ⟨inner, stack⟩ := env.exists_scopes_eq
  rw [← length_scopes, ← length_scopes, scopes_define stack, stack, List.length_cons,
    List.length_cons]

end Environment

end ColonLisp
