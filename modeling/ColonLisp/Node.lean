/-
# Node -- syntax trees

A program is a list of statements.  A statement is an expression: a definition, a
conditional, a reference to a name, or a literal.  Values are nodes too, so a
program may also stand inside an expression.

A literal is its own value; every other node is `reducible`.
-/
set_option autoImplicit false

namespace ColonLisp

/-- A node of a syntax tree. -/
inductive Node where
  | program (statements : List Node)
  /-- Binds a name to the value of an expression. -/
  | definition (name : String) (value : Node)
  /-- Chooses between two expressions by the value of a third. -/
  | conditional (condition onTrue onFalse : Node)
  | ref (name : String)
  /-- A text, as it is and not as it is spelled. -/
  | string (text : String)
  | boolean (value : Bool)
deriving Repr, Inhabited

namespace Node

/-- Whether a node has to be evaluated to give a value. -/
def reducible : Node → Bool
  | program _ | definition .. | conditional .. | ref _ => true
  | string _ | boolean _ => false

/-- The name of a node's form in diagnostics. -/
def typeName : Node → String
  | program _ => "program"
  | definition .. => "definition"
  | conditional .. => "if"
  | ref _ => "reference"
  | string _ => "string"
  | boolean _ => "boolean"

end Node

end ColonLisp
