/-
# Fault -- why a program could not be run

A fault belongs to the stage that met it.  Faults of the source text carry the place
they were met at; faults of evaluation carry their cause.  `message` says what is
wrong, and `report` says it with the stage and the place.
-/
import ColonLisp.Position

set_option autoImplicit false

namespace ColonLisp

/-- The stages of a run. -/
inductive Stage where
  | lexing
  | parsing
  | evaluation
  | output
deriving DecidableEq, Repr, Inhabited

/-- Why a program could not be run. -/
inductive Fault where
  /-- The source cannot be cut into tokens. -/
  | lexical (pos : Position) (text : String)
  /-- The tokens do not follow the grammar. -/
  | syntactic (pos : Position) (text : String)
  /-- A name is used that no visible scope binds. -/
  | undefinedVariable (name : String)
  /-- A value of one type stands where another is needed. -/
  | typeMismatch (expected got : String)
  /-- The output could not be written. -/
  | output (reason : String)
deriving DecidableEq, Repr, Inhabited

namespace Fault

/-- The stage that a fault belongs to. -/
def stage : Fault → Stage
  | lexical .. => .lexing
  | syntactic .. => .parsing
  | undefinedVariable _ | typeMismatch .. => .evaluation
  | output _ => .output

/-- A text with what it is about and its place in front. -/
def located (what : String) (pos : Position) (text : String) : String :=
  what ++ " on line " ++ toString pos.line ++ ", column " ++ toString pos.column ++ ": " ++ text

/-- The full line that is shown for a fault.  A type mismatch does not name the type
that was met. -/
def report : Fault → String
  | lexical pos text => located "invalid syntax" pos text
  | syntactic pos text => located "parse error" pos text
  | undefinedVariable name => "no such variable: " ++ name
  | typeMismatch expected _ => "expected " ++ expected ++ " expression"
  | output reason => "could not write output: " ++ reason

/-- What is wrong, without the stage and the place. -/
def message : Fault → String
  | lexical _ text | syntactic _ text => text
  | fault => fault.report

end Fault

end ColonLisp
