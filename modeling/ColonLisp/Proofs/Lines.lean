/-
# Proofs.Lines -- a source may be lexed line by line

`tokenize_append_line`: if a text can be read to its end, then the tokens of the text, a line
feed and another text are the tokens of the first and those of the second, further down.  The
second text may be illegible; the fault is then its own.  `tokenize_line_by_line` counts how
far down: one line for each line feed of the first text, and one for the line feed between.

The line feed ends whatever stands before it, so no token of the first text changes
(`Lexes.append`).  All that the second text sees of the first is the place where it begins,
and that place is only carried along (`Lexes.down`).
-/
import ColonLisp.Proofs.Lookahead
import ColonLisp.Proofs.Places

set_option autoImplicit false

namespace ColonLisp

/-! ## Places further down -/

/-- The place so many lines below, in the same column. -/
def Position.down (lines : Nat) (pos : Position) : Position := ⟨pos.line + lines, pos.column⟩

theorem Position.step_down (lines : Nat) (pos : Position) (c : Char) :
    (pos.down lines).step c = (pos.step c).down lines := by
  by_cases feed : c = '\n'
  · simp [Position.step, Position.down, feed, Nat.add_right_comm]
  · simp [Position.step, Position.down, feed]

theorem Position.after_down (lines : Nat) (pos : Position) (text : List Char) :
    (pos.down lines).after text = (pos.after text).down lines := by
  induction text generalizing pos with
  | nil => rfl
  | cons c text ih => rw [after_cons, after_cons, step_down, ih]

/-- The token so many lines below. -/
def Token.down (lines : Nat) (t : Token) : Token := { t with pos := t.pos.down lines }

@[simp] theorem Token.kind_down (lines : Nat) (t : Token) : (t.down lines).kind = t.kind := rfl

@[simp] theorem Token.text_down (lines : Nat) (t : Token) : (t.down lines).text = t.text := rfl

/-! ## Texts further down -/

namespace Lexer

/-- A text that begins further down has the same tokens, further down. -/
theorem Lexes.down {depth : Nat} {pos : Position} {text : List Char} {tokens : List Token}
    (lexed : Lexes depth pos text tokens) (lines : Nat) :
    Lexes depth (pos.down lines) text (tokens.map (Token.down lines)) := by
  induction lexed with
  | done => exact .done
  | unclosed => exact .unclosed
  | unopened => exact .unopened
  | illegible found read => exact .illegible found read
  | strange visible notOpening notClosing unknown =>
      exact .strange visible notOpening notClosing unknown
  | blank blank _ ih =>
      rw [← Position.step_down] at ih
      exact .blank blank ih
  | opening _ ih =>
      rw [← Position.step_down] at ih
      exact .opening ih
  | closing _ ih =>
      rw [← Position.step_down] at ih
      exact .closing ih
  | lexeme found read _ ih =>
      rw [← Position.after_down] at ih
      exact .lexeme found read ih

end Lexer

/-- The tokens of a text that can be read to its end, and of the lines after it. -/
theorem tokenize_append_line {first : String} (legible : ∀ t ∈ tokenize first, t.kind ≠ .error)
    (second : String) :
    tokenize (first ++ "\n" ++ second) =
      tokenize first ++
        (tokenize second).map (Token.down (Position.start.after first.toList).line) := by
  have begins : (Position.start.after first.toList).step '\n' =
      Position.start.down (Position.start.after first.toList).line := by
    simp [Position.step, Position.down, Position.start, Nat.add_comm]
  have below := (Lexer.lexes_tokenize second).down (Position.start.after first.toList).line
  rw [← begins] at below
  have whole := (Lexer.lexes_tokenize first).append legible rfl (.blank rfl below)
  refine Lexer.tokenize_of_lexes ?_
  rw [String.toList_append, String.toList_append, List.append_assoc]
  exact whole

/-- **A source may be lexed line by line.**  The tokens of the second text, the fault of one that
is illegible too, keep their kinds, texts and columns, and stand as many lines further down as
the first text has. -/
theorem tokenize_line_by_line {first : String} (legible : ∀ t ∈ tokenize first, t.kind ≠ .error)
    (second : String) :
    tokenize (first ++ "\n" ++ second) =
      tokenize first ++ (tokenize second).map (Token.down (1 + first.toList.count '\n')) := by
  have lines : (Position.start.after first.toList).line = 1 + first.toList.count '\n' := by
    rw [Position.start_after]
  rw [tokenize_append_line legible, lines]

/-- A sign before the line feed and a digit after it, a blank line, and a form that is never
closed: the sign stays a name, and the fault moves down by three lines. -/
theorem tokens_of_sign_before_line_feed :
    let first := "(\"a\"\n\n :if) -"
    let second := "5 ("
    (∀ t ∈ tokenize first, t.kind ≠ .error) ∧
      tokenize (first ++ "\n" ++ second) = tokenize first ++
        [⟨.number, "5", ⟨4, 1⟩⟩, ⟨.leftParen, "(", ⟨4, 3⟩⟩,
          ⟨.error, "unterminated left paren", ⟨4, 4⟩⟩] := by
  intro first second
  have legible : ∀ t ∈ tokenize first, t.kind ≠ .error := by decide
  have below : (tokenize second).map (Token.down (1 + first.toList.count '\n')) =
      [⟨.number, "5", ⟨4, 1⟩⟩, ⟨.leftParen, "(", ⟨4, 3⟩⟩,
        ⟨.error, "unterminated left paren", ⟨4, 4⟩⟩] := by decide
  refine ⟨legible, ?_⟩
  rw [tokenize_line_by_line legible, below]

end ColonLisp
