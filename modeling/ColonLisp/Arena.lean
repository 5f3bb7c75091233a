/-
# Arena -- scopes by index

The scopes that are open stand in one array, in the order in which they were entered.  Each
keeps the index of the scope around it; the first is the global scope and keeps none.  A name
is bound in the last scope, and is looked up by a walk that starts there and goes on to the
scope around, as long as there is one and the name was not met.

An array of scopes can be empty, an index can name no scope, and a walk over such indices
need not end.  `Linked` is what excludes this: there is a scope, and each keeps the index of
the one before it.  All operations keep an arena linked, and the walk in a linked arena looks
at the scopes from the last to the first (`Linked.walk_last_eq`).
-/
import ColonLisp.Node
import Std.Data.TreeMap.Basic

set_option autoImplicit false

namespace ColonLisp

/-- The names that one scope binds. -/
abbrev Scope := Std.TreeMap String Node

/-- A scope in its place. -/
structure Arena.Slot where
  names : Scope
  /-- The index of the scope around this one; `none` if it is the global scope. -/
  parent : Option Nat
deriving Inhabited

/-- Scopes, in the order in which they were entered. -/
structure Arena where
  slots : Array Arena.Slot
deriving Inhabited

namespace Arena

/-- How many scopes there are. -/
def size (arena : Arena) : Nat := arena.slots.size

/-- The index of the last scope. -/
def last (arena : Arena) : Nat := arena.size - 1

/-- The global scope alone, with no names. -/
def empty : Arena := ⟨#[⟨∅, none⟩]⟩

/-- A new scope inside the last one, with no names. -/
def enter (arena : Arena) : Arena := ⟨arena.slots.push ⟨∅, some arena.last⟩⟩

/-- Leaves the last scope, unless it is the only one. -/
def exit (arena : Arena) : Arena :=
  if 1 < arena.size then ⟨arena.slots.pop⟩ else arena

/-- Binds a name in the last scope, in place of what it was bound to there. -/
def define (arena : Arena) (name : String) (value : Node) : Arena :=
  ⟨arena.slots.modify arena.last fun slot => { slot with names := slot.names.insert name value }⟩

/-! ## Looking up a name -/

/-- How a walk over the scopes ends. -/
inductive Walk where
  /-- A scope binds the name. -/
  | found (value : Node)
  /-- The walk came to the global scope, and no scope binds the name. -/
  | absent
  /-- There is no scope at an index that a scope keeps. -/
  | astray (index : Nat)
  /-- The steps that were allowed are used up. -/
  | unfinished
deriving Inhabited

namespace Walk

/-- What the name was found to be bound to. -/
def value? : Walk → Option Node
  | found value => some value
  | absent | astray _ | unfinished => none

/-- A walk that came to its end. -/
def ofOption : Option Node → Walk
  | some value => found value
  | none => absent

@[simp] theorem value?_ofOption (result : Option Node) : (ofOption result).value? = result := by
  cases result with
  | some value => rfl
  | none => rfl

end Walk

/-- Looks for a name in the scope of an index and in those around it, in so many steps. -/
def walk (arena : Arena) (name : String) : Nat → Option Nat → Walk
  | _, none => .absent
  | 0, some _ => .unfinished
  | steps + 1, some index =>
      match arena.slots[index]? with
      | none => .astray index
      | some slot =>
          match slot.names[name]? with
          | some value => .found value
          | none => arena.walk name steps slot.parent

/-- Looks up a name from the last scope outwards, in as many steps as there are scopes. -/
def lookup (arena : Arena) (name : String) : Walk :=
  arena.walk name arena.size (some arena.last)

/-! ## The scopes as a stack -/

/-- What the scopes bind, from the last to the first. -/
def scopes (arena : Arena) : List Scope := (arena.slots.toList.map Slot.names).reverse

@[simp] theorem length_scopes (arena : Arena) : arena.scopes.length = arena.size := by
  simp [scopes, size]

theorem scopes_push (slots : Array Slot) (slot : Slot) :
    scopes ⟨slots.push slot⟩ = slot.names :: scopes ⟨slots⟩ := by
  simp [scopes]

theorem scopes_enter (arena : Arena) : arena.enter.scopes = ∅ :: arena.scopes :=
  scopes_push _ _

/-- The last scope and the arena without it. -/
theorem exists_push_of_scopes {arena : Arena} {top : Scope} {below : List Scope}
    (stack : arena.scopes = top :: below) :
    ∃ slots slot, arena = ⟨slots.push slot⟩ ∧ slot.names = top ∧ scopes ⟨slots⟩ = below := by
  have some_scope : arena.slots.size ≠ 0 := by
    have counted := arena.length_scopes
    rw [stack, List.length_cons, size] at counted
    omega
  obtain ⟨slots, slot, whole⟩ := Array.eq_push_of_size_ne_zero some_scope
  obtain ⟨all⟩ := arena
  subst whole
  rw [scopes_push] at stack
  obtain ⟨top, below⟩ := List.cons.inj stack
  exact ⟨slots, slot, rfl, top, below⟩

theorem scopes_define {arena : Arena} {top : Scope} {below : List Scope}
    (stack : arena.scopes = top :: below) (name : String) (value : Node) :
    (arena.define name value).scopes = top.insert name value :: below := by
  obtain ⟨slots, slot, rfl, rfl, rfl⟩ := exists_push_of_scopes stack
  have bound : define ⟨slots.push slot⟩ name value =
      ⟨slots.push { slot with names := slot.names.insert name value }⟩ := by
    refine congrArg Arena.mk (Array.ext (by simp) fun i inside inside' => ?_)
    simp only [last, size, Array.size_push, Nat.add_sub_cancel, Array.getElem_modify,
      Array.getElem_push]
    grind
  rw [bound, scopes_push]

theorem scopes_exit {arena : Arena} {top next : Scope} {below : List Scope}
    (stack : arena.scopes = top :: next :: below) : arena.exit.scopes = next :: below := by
  obtain ⟨slots, slot, rfl, rfl, rest⟩ := exists_push_of_scopes stack
  have several : 1 < size ⟨slots.push slot⟩ := by
    rw [← length_scopes, stack]
    simp
  rw [exit, if_pos several, Array.pop_push]
  exact rest

theorem exit_eq_self {arena : Arena} {top : Scope} (stack : arena.scopes = [top]) :
    arena.exit = arena := by
  have alone : ¬ 1 < arena.size := by
    rw [← length_scopes, stack]
    simp
  rw [exit, if_neg alone]

/-- What the first `n` scopes bind, from the last of them to the first. -/
def upTo (arena : Arena) (n : Nat) : List Scope :=
  ((arena.slots.toList.take n).map Slot.names).reverse

theorem upTo_size (arena : Arena) : arena.upTo arena.slots.size = arena.scopes := by
  rw [upTo, scopes, ← Array.length_toList, List.take_length]

theorem upTo_succ {arena : Arena} {n : Nat} (inside : n < arena.slots.size) :
    arena.upTo (n + 1) = arena.slots[n].names :: arena.upTo n := by
  have found : arena.slots.toList[n]? = some arena.slots[n] := by simp [inside]
  simp [upTo, List.take_add_one, found]

theorem walk_none {arena : Arena} (name : String) (steps : Nat) :
    arena.walk name steps none = .absent := by
  cases steps with
  | zero => rfl
  | succ steps => rfl

theorem walk_inside {arena : Arena} (name : String) {steps i : Nat}
    (inside : i < arena.slots.size) :
    arena.walk name (steps + 1) (some i) =
      match arena.slots[i].names[name]? with
      | some value => .found value
      | none => arena.walk name steps arena.slots[i].parent := by
  rw [walk, Array.getElem?_eq_getElem inside]

/-- Each scope is inside the one before it, and the first is inside none. -/
structure Linked (arena : Arena) : Prop where
  nonempty : 0 < arena.slots.size
  global : arena.slots[0].parent = none
  inner : ∀ (i : Nat) (inside : i < arena.slots.size), 0 < i →
    arena.slots[i].parent = some (i - 1)

namespace Linked

variable {arena : Arena}

theorem empty : Arena.empty.Linked := by
  refine ⟨by decide, rfl, fun i inside positive => ?_⟩
  exact absurd inside (by simp [Arena.empty]; omega)

theorem enter (linked : arena.Linked) : arena.enter.Linked := by
  have some_scope := linked.nonempty
  refine ⟨by simp [Arena.enter], ?_, fun i inside positive => ?_⟩
  · simp [Arena.enter, Array.getElem_push, some_scope, linked.global]
  · simp only [Arena.enter, Array.getElem_push]
    split
    · exact linked.inner i _ positive
    · simp only [Arena.enter, Array.size_push] at inside
      simp [last, size]
      omega

theorem exit (linked : arena.Linked) : arena.exit.Linked := by
  unfold Arena.exit
  split
  · rename_i several
    unfold size at several
    refine ⟨by rw [Array.size_pop]; omega, ?_, fun i inside positive => ?_⟩
    · simp [linked.global]
    · simp only [Array.getElem_pop]
      exact linked.inner i _ positive
  · exact linked

theorem define (linked : arena.Linked) (name : String) (value : Node) :
    (arena.define name value).Linked := by
  -- Binding a name changes no parent.
  have parent : ∀ (i : Nat) (inside : i < (arena.define name value).slots.size)
      (inside' : i < arena.slots.size),
      (arena.define name value).slots[i].parent = arena.slots[i].parent := by
    intro i inside inside'
    simp only [Arena.define, Array.getElem_modify]
    split
    · rfl
    · rfl
  have same : (arena.define name value).slots.size = arena.slots.size := by simp [Arena.define]
  refine ⟨same ▸ linked.nonempty, ?_, fun i inside positive => ?_⟩
  · rw [parent 0 _ linked.nonempty]
    exact linked.global
  · rw [parent i inside (same ▸ inside)]
    exact linked.inner i _ positive

/-- The walk from an index looks at the scopes from there to the first, and ends there. -/
theorem walk_eq (linked : arena.Linked) (name : String) {i steps : Nat}
    (inside : i < arena.slots.size) (enough : i < steps) :
    arena.walk name steps (some i) = .ofOption ((arena.upTo (i + 1)).findSome? (·[name]?)) := by
  induction i generalizing steps with
  | zero =>
      obtain ⟨steps, rfl⟩ := Nat.exists_eq_add_one.mpr enough
      rw [walk_inside name inside, upTo_succ inside, List.findSome?_cons, linked.global]
      cases arena.slots[0].names[name]? with
      | some value => rfl
      | none => exact walk_none name steps
  | succ i ih =>
      obtain ⟨steps, rfl⟩ := Nat.exists_eq_add_one.mpr (Nat.zero_lt_of_lt enough)
      rw [walk_inside name inside, upTo_succ inside, List.findSome?_cons,
        linked.inner (i + 1) inside (Nat.succ_pos i)]
      cases arena.slots[i + 1].names[name]? with
      | some value => rfl
      | none => exact ih (Nat.lt_of_succ_lt inside) (Nat.lt_of_succ_lt_succ enough)

/-- A name is bound to what the last of the scopes that bind it says.  The walk goes to no
index without a scope, and as many steps as there are scopes suffice. -/
theorem walk_last_eq (linked : arena.Linked) (name : String) {steps : Nat}
    (enough : arena.size ≤ steps) :
    arena.walk name steps (some arena.last) =
      .ofOption (arena.scopes.findSome? (·[name]?)) := by
  have some_scope : arena.last + 1 = arena.slots.size := Nat.sub_add_cancel linked.nonempty
  unfold size at enough
  rw [linked.walk_eq name (by omega) (by omega), some_scope, upTo_size]

/-- The parents are known, so the names tell the rest. -/
theorem eq_of_scopes {other : Arena} (linked : arena.Linked) (linked' : other.Linked)
    (same : arena.scopes = other.scopes) : arena = other := by
  have names := List.reverse_inj.mp same
  have sizes : arena.slots.size = other.slots.size := by simpa using congrArg List.length names
  obtain ⟨slots⟩ := arena
  obtain ⟨slots'⟩ := other
  congr 1
  refine Array.ext sizes fun i inside inside' => ?_
  have sameNames : slots[i].names = slots'[i].names := by
    have at_i := congrArg (·[i]?) names
    simpa [inside, inside'] using at_i
  have sameParent : slots[i].parent = slots'[i].parent := by
    cases i with
    | zero => rw [linked.global, linked'.global]
    | succ i => rw [linked.inner _ inside (by omega), linked'.inner _ inside' (by omega)]
  calc slots[i] = ⟨slots[i].names, slots[i].parent⟩ := rfl
    _ = ⟨slots'[i].names, slots'[i].parent⟩ := by rw [sameNames, sameParent]

end Linked

end Arena

end ColonLisp
