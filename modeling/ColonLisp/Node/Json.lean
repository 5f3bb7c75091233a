/-
# Node.Json -- syntax trees in JSON

A node is an object with one member, whose key tells the form and whose value holds
the parts: the statements of a program as an array, the parts of a definition and of a
conditional as an object, and a name, a text and a boolean as they are.

It is read back from exactly such an object.  In the object of a definition or a
conditional the order does not matter and other members are ignored; an array does not
stand for it.
-/
import ColonLisp.Json
import ColonLisp.Node

set_option autoImplicit false

namespace ColonLisp.Node

mutual

/-- A node as an object. -/
def toJson : Node → Json
  | program statements => .object [("Program", .array (toJsonAll statements))]
  | definition name value =>
      .object [("Definition",
        .object [("name", .string name), ("expression", value.toJson)])]
  | conditional condition onTrue onFalse =>
      .object [("If",
        .object [("condition", condition.toJson), ("then_branch", onTrue.toJson),
          ("else_branch", onFalse.toJson)])]
  | ref name => .object [("Ref", .string name)]
  | string text => .object [("StringLiteral", .string text)]
  | boolean value => .object [("BooleanLiteral", .bool value)]

/-- Nodes as objects. -/
def toJsonAll : List Node → List Json
  | [] => []
  | node :: rest => node.toJson :: toJsonAll rest

end

mutual

/-- The node that a value is. -/
def ofJson? : Json → Option Node
  | .object [(form, parts)] =>
      match form, parts with
      | "Program", .array items => (ofJsonAll? items).map program
      | "Definition", .object members => do
          let name ← (members.lookup "name").bind Json.string?
          return definition name (← part? "expression" members)
      | "If", .object members => do
          return conditional (← part? "condition" members) (← part? "then_branch" members)
            (← part? "else_branch" members)
      | "Ref", .string name => some (ref name)
      | "StringLiteral", .string text => some (string text)
      | "BooleanLiteral", .bool value => some (boolean value)
      | _, _ => none
  | _ => none

/-- The nodes that values are. -/
def ofJsonAll? : List Json → Option (List Node)
  | [] => some []
  | json :: rest => do return (← ofJson? json) :: (← ofJsonAll? rest)

/-- The node that the member with a key is. -/
def part? (key : String) : List (String × Json) → Option Node
  | [] => none
  | (name, json) :: rest => if name = key then ofJson? json else part? key rest

end

end ColonLisp.Node
