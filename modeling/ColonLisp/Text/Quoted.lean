/-
# Text.Quoted -- the double-quoted spelling of a text

A quoted spelling is a quote, then units, then a quote.  A unit is a character
other than a quote, a backslash and a line feed, or a backslash with any character
but a line feed after it.

* `closed?` finds the units up to the closing quote, and refuses a text in which a
  line feed or the end comes first;
* `decode` reads the units back.  Three escapes stand for one character each
  (`\"`, `\\` and `\n`); every other pair stands for itself, both characters kept;
* `encode` writes a text with those three escapes and no others, so its spelling
  has no line feed.

`decode` is total: a text without two delimiting quotes is read as it stands, and a
backslash that ends the text stands for itself.
-/
set_option autoImplicit false

namespace ColonLisp.Text.Quoted

/-! ## Where a quoted spelling ends -/

/-- The units after an opening quote up to and with the closing quote, and what
follows.  `none` if a line feed or the end of the text comes before the closing
quote, also when a backslash stands before it. -/
def closed? : List Char → Option (List Char × List Char)
  | [] => none
  | '"' :: rest => some (['"'], rest)
  | '\n' :: _ => none
  | ['\\'] => none
  | '\\' :: c :: rest =>
      if c = '\n' then none
      else (closed? rest).map fun (units, after) => ('\\' :: c :: units, after)
  | c :: rest => (closed? rest).map fun (units, after) => (c :: units, after)

/-- Nothing is lost or changed on the way to the closing quote. -/
theorem append_of_closed? {text units rest : List Char}
    (found : closed? text = some (units, rest)) : units ++ rest = text := by
  fun_induction closed? text generalizing units with
  | case1 | case3 | case4 => cases found
  | case2 tail =>
      cases found
      rfl
  | case5 tail => simp at found
  | case6 c tail _ ih =>
      obtain ⟨⟨inner, after⟩, inside, same⟩ := Option.map_eq_some_iff.mp found
      cases same
      simp [ih inside]
  | case7 c tail _ _ _ _ ih =>
      obtain ⟨⟨inner, after⟩, inside, same⟩ := Option.map_eq_some_iff.mp found
      cases same
      simp [ih inside]

/-! ## Reading -/

/-- What a backslash followed by `c` stands for. -/
def unescape (c : Char) : List Char :=
  if c = '"' then ['"']
  else if c = 'n' then ['\n']
  else if c = '\\' then ['\\']
  else ['\\', c]

/-- The text between the two delimiting quotes, or all of it if either is missing.
One quote cannot delimit both ends. -/
def strip : List Char → List Char
  | '"' :: body => if body.getLast? = some '"' then body.dropLast else '"' :: body
  | text => text

/-- The characters that a sequence of units stands for. -/
def decodeUnits : List Char → List Char
  | [] => []
  | '\\' :: c :: rest => unescape c ++ decodeUnits rest
  | c :: rest => c :: decodeUnits rest

/-- The text that a quoted spelling stands for. -/
def decode (spelling : String) : String :=
  String.ofList (decodeUnits (strip spelling.toList))

/-! ## Writing -/

/-- The unit that stands for one character. -/
def escape (c : Char) : List Char :=
  if c = '"' then ['\\', '"']
  else if c = '\\' then ['\\', '\\']
  else if c = '\n' then ['\\', 'n']
  else [c]

/-- The units of a text, without the delimiting quotes. -/
def encodeUnits (text : List Char) : List Char := text.flatMap escape

/-- The quoted spelling of a text. -/
def encode (text : String) : String :=
  String.ofList ('"' :: encodeUnits text.toList ++ ['"'])

end ColonLisp.Text.Quoted
