/-
# Evaluation -- what programs do

Statements are evaluated in order.  The value of a statement that had to be evaluated
is written as one line; a literal is its own value and is not written.  The sink is
flushed when a list of statements is at its end, and only then.  The first fault ends
the evaluation, and what was written and bound before it stays.

* A definition binds its name to the value of its expression in the innermost scope.
  Its own value is the definition as it stands.
* A conditional evaluates the branch that its condition chooses, and not the other.
  A condition that is no boolean is a fault.
* A program inside an expression runs its statements, with their lines and the flush,
  and its value is the program of their values.
-/
import ColonLisp.Node.Printer
import ColonLisp.Node.Reader
import ColonLisp.Session
import ColonLisp.Token.Lexer

set_option autoImplicit false

namespace ColonLisp

variable {σ : Type} [Sink σ]

mutual

/-- The value of a node. -/
def Node.eval : Node → Run σ Node
  | .program statements => do return .program (← Node.evalAll statements)
  | .definition name value => do
      Run.define name (← value.eval)
      return .definition name value
  | .conditional condition onTrue onFalse => do
      match ← condition.eval with
      | .boolean true => onTrue.eval
      | .boolean false => onFalse.eval
      | other => throw (.typeMismatch "boolean" other.typeName)
  | .ref name => Run.lookup name
  | .string text => return .string text
  | .boolean value => return .boolean value

/-- The values of statements, each written as it is reached. -/
def Node.evalAll : List Node → Run σ (List Node)
  | [] => do
      Run.flush
      return []
  | statement :: rest => do
      let value ← statement.eval
      Run.note (.evaluated statement value)
      if statement.reducible then Run.write (value.render ++ "\n")
      return value :: (← Node.evalAll rest)

end

/-- The statements of a program; any other node is the only statement of its program. -/
def Node.statements : Node → List Node
  | .program statements => statements
  | node => [node]

/-- Runs a program: the values of its statements. -/
def Node.run (program : Node) : Run σ (List Node) := Node.evalAll program.statements

/-- The value of a node, whose definitions are forgotten afterwards. -/
def Node.evalScoped (node : Node) : Run σ Node := Run.inScope node.eval

/-- The program that a source text spells. -/
def parseSource (source : String) : Except Fault Node := do parse (← scan source)

/-- Runs a source text: the program of its statements' values.  Nothing is written
before the whole text is parsed. -/
def runSource (source : String) : Run σ Node := do
  let tokens ← Run.ofExcept (scan source)
  Run.note (.tokens tokens.length)
  let program ← Run.ofExcept (parse tokens)
  Run.note .nodes
  return .program (← program.run)

/-- Runs a source text in a new session. -/
def evaluate (source : String) (sink : σ) : Except Fault Node × Session σ :=
  (runSource source).run (Session.start sink)

end ColonLisp
