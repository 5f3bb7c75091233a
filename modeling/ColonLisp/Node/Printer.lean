/-
# Node.Printer -- how nodes are shown

Nodes are shown close to their source: the heads of forms are shown without their
colon, texts are quoted, booleans keep their colon.  The statements of a program
stand on lines of their own, with no line feed after the last.
-/
import ColonLisp.Node
import ColonLisp.Text.Quoted

set_option autoImplicit false

namespace ColonLisp.Node

mutual

/-- The printed form of a node. -/
def render : Node → String
  | program statements => renderLines statements
  | definition name value => "(define " ++ name ++ " " ++ value.render ++ ")"
  | conditional condition onTrue onFalse =>
      "(if " ++ condition.render ++ " " ++ onTrue.render ++ " " ++ onFalse.render ++ ")"
  | ref name => name
  | string text => Text.Quoted.encode text
  | boolean value => if value then ":true" else ":false"

/-- The printed forms of nodes, with a line feed between neighbours. -/
def renderLines : List Node → String
  | [] => ""
  | [node] => node.render
  | node :: next :: rest => node.render ++ "\n" ++ renderLines (next :: rest)

end

end ColonLisp.Node
