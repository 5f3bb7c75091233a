/-
# Proofs.Scoping -- a scope that is left leaves nothing behind

`evalScoped` evaluates a node in a scope of its own.  `evalScoped_eq_eval`: its result and
what it does to the sink are those of `eval` in the same session, and the environment
afterwards is the one before.

The two runs differ in the depth of their environments, so they are paired by what can be
seen of these: every name is bound to the same value in both (`besideScope`).  The pairing
also says that the scopes around the new one are the old ones; no action on the innermost
scope can change that.
-/
import ColonLisp.Proofs.Pairing
import Std.Data.TreeMap.Lemmas

set_option autoImplicit false

namespace ColonLisp

namespace Environment

/-- A new scope hides nothing. -/
theorem find?_enter (env : Environment) (name : String) :
    env.enter.find? name = env.find? name := by
  simp [find?_eq]

/-- A definition is found first, and hides no other name. -/
theorem find?_define (env : Environment) (name : String) (value : Node) (other : String) :
    (env.define name value).find? other =
      if name = other then some value else env.find? other := by
  obtain ⟨inner, stack⟩ := env.exists_scopes_eq
  have bound : (inner.insert name value)[other]? =
      if name = other then some value else inner[other]? := by
    rw [Std.TreeMap.getElem?_insert]
    simp only [Std.LawfulEqCmp.compare_eq_iff_eq]
  simp only [find?_eq, scopes_define stack, stack, List.findSome?_cons, bound]
  by_cases same : name = other
  · rw [if_pos same, if_pos same]
  · rw [if_neg same, if_neg same]

end Environment

variable {σ : Type}

/-- The second session has the same sink as the first, finds the same values, and has the
scopes `around` around its innermost one. -/
structure BesideScope (around : List Scope) (s t : Session σ) : Prop where
  sink : s.sink = t.sink
  found : ∀ name, s.env.find? name = t.env.find? name
  outer : t.env.outer = around

def Pairing.besideScope (around : List Scope) : Pairing σ σ where
  paired := BesideScope around
  cut _ _ _ := False
  shared _ := True
  find?_eq beside := beside.found
  define := by
    rintro s t ⟨sink, found, outer⟩ name value
    refine ⟨sink, fun other => ?_, (t.env.outer_define name value).trans outer⟩
    change (s.env.define name value).find? other = (t.env.define name value).find? other
    rw [Environment.find?_define, Environment.find?_define, found]
  note beside _ := ⟨beside.sink, beside.found, beside.outer⟩
  shares_evaluation _ := trivial

/-- Sinks that are the same are the same after any action on them. -/
theorem Pairing.besideScope_onSink (around : List Scope)
    (action : σ → Except String Unit × σ) :
    (besideScope around).Tracks (Run.onSink action) (Run.onSink action) := by
  refine .onSink id (fun _ => trivial) ?_
  rintro s t ⟨sink, found, outer⟩
  rw [← sink]
  exact ⟨rfl, rfl, found, outer⟩

/-- **Evaluating in a scope of its own is evaluating, with the environment put back.**  The
sink may be of any type, so it may keep a record of every call. -/
theorem evalScoped_eq_eval [Sink σ] (node : Node) (session : Session σ) :
    (node.evalScoped.run session).1 = (node.eval.run session).1 ∧
      (node.evalScoped.run session).2.sink = (node.eval.run session).2.sink ∧
      (node.evalScoped.run session).2.env = session.env := by
  let pairing : Pairing σ σ := .besideScope session.env.scopes
  have tracked : pairing.Tracks node.eval node.eval :=
    .eval (fun _ => Pairing.besideScope_onSink _ _) (Pairing.besideScope_onSink _ _) node
  have start : BesideScope session.env.scopes session session.enter :=
    ⟨rfl, fun name => (session.env.find?_enter name).symm, session.env.outer_enter⟩
  have run : node.evalScoped.run session =
      ((node.eval.run session.enter).1, (node.eval.run session.enter).2.exit) := rfl
  have ends := tracked.ends start
  rw [run]
  generalize node.eval.run session = plain at ends ⊢
  generalize node.eval.run session.enter = inside at ends ⊢
  cases ends with
  | value beside => exact ⟨rfl, beside.sink.symm, Environment.exit_of_outer beside.outer⟩
  | fault _ beside => exact ⟨rfl, beside.sink.symm, Environment.exit_of_outer beside.outer⟩
  | cut impossible => exact impossible.elim

end ColonLisp
