/-
# Position -- lines and columns of a source text

Lines and columns count from one.  A line feed starts a line; every other
character, wide or narrow, takes one column.
-/
set_option autoImplicit false

namespace ColonLisp

/-- A place in a source text. -/
structure Position where
  line : Nat
  column : Nat
deriving DecidableEq, Repr, Inhabited

namespace Position

/-- The place of the first character of a text. -/
def start : Position := ⟨1, 1⟩

/-- The place after a character. -/
def step (pos : Position) (c : Char) : Position :=
  if c = '\n' then ⟨pos.line + 1, 1⟩ else ⟨pos.line, pos.column + 1⟩

/-- The place after a run of characters. -/
def after (pos : Position) (text : List Char) : Position := text.foldl step pos

@[simp] theorem after_nil (pos : Position) : pos.after [] = pos := rfl

@[simp] theorem after_cons (pos : Position) (c : Char) (text : List Char) :
    pos.after (c :: text) = (pos.step c).after text := rfl

theorem after_append (pos : Position) (first second : List Char) :
    pos.after (first ++ second) = (pos.after first).after second := by
  simp [after]

end Position

end ColonLisp
