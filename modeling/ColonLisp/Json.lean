/-
# Json -- values of the JSON data format

The members of an object keep their order.  A number is kept as a natural number if it
is written as one, and by its spelling otherwise: a sign, a fraction or an exponent
makes it another kind of number, also when its value is whole.
-/
set_option autoImplicit false

namespace ColonLisp

/-- A JSON value. -/
inductive Json where
  | null
  | bool (value : Bool)
  /-- A number written with digits only. -/
  | natural (value : Nat)
  /-- Any other number, by its spelling. -/
  | number (spelling : String)
  | string (text : String)
  | array (items : List Json)
  | object (members : List (String × Json))
deriving Repr, Inhabited

namespace Json

/-- The member of an object with a key. -/
def member? (json : Json) (key : String) : Option Json :=
  match json with
  | object members => members.lookup key
  | _ => none

/-- The text of a string. -/
def string? : Json → Option String
  | string text => some text
  | _ => none

/-- The value of a boolean. -/
def bool? : Json → Option Bool
  | bool value => some value
  | _ => none

/-- The items of an array. -/
def array? : Json → Option (List Json)
  | array items => some items
  | _ => none

/-- The value of a natural number that fits in a 64-bit word. -/
def word? : Json → Option Nat
  | natural value => if value < UInt64.size then some value else none
  | _ => none

end Json

end ColonLisp
