/-
# Proofs.RoundTrip -- a printed program is read back

Printing drops the colon of `:define` and `:if`, so the heads of printed forms are lexed as
names.  `restoreHeads` puts the reserved words back: it changes an identifier `define` or
`if` that directly follows an opening parenthesis, and nothing else.  No other name can
stand there in a printed program, so nothing is lost on the way.

`parse_restoreHeads_tokenize_render`: if a source text parses to a program, then the
printed program is lexed to its end, and with the heads restored its tokens parse to the
same program.

The induction is on the expression.  `lexes_render` lexes its printed form in front of any
text that cannot prolong it; the tokens `Shows` the expression, which is closed under what
follows them, so the tokens of neighbours do not meet.
-/
import ColonLisp.Node.Printer
import ColonLisp.Proofs.Grammar
import ColonLisp.Proofs.Names

set_option autoImplicit false

namespace ColonLisp

/-! ## Restoring the heads of forms -/

/-- The reserved word that an identifier at the head of a printed form stands for. -/
def Token.asHead (t : Token) : Token :=
  if t.kind = .identifier ∧ t.text = "define" then ⟨.define, ":define", t.pos⟩
  else if t.kind = .identifier ∧ t.text = "if" then ⟨.conditional, ":if", t.pos⟩
  else t

/-- Restores the heads of forms in tokens that follow an opening parenthesis, or do not. -/
def restoreHeadsAfter : Bool → List Token → List Token
  | _, [] => []
  | opened, t :: rest =>
      (if opened then t.asHead else t) :: restoreHeadsAfter (t.kind == .leftParen) rest

/-- Replaces each identifier `define` or `if` that directly follows an opening parenthesis by
the reserved word. -/
def restoreHeads (tokens : List Token) : List Token := restoreHeadsAfter false tokens

/-- Tokens that are legible and become other tokens when heads are restored, whatever
follows them. -/
structure Restores (shown restored : List Token) : Prop where
  legible : ∀ t ∈ shown, t.kind ≠ .error
  closed : ∀ following, restoreHeads (shown ++ following) = restored ++ restoreHeads following

namespace Restores

theorem nil : Restores [] [] := ⟨by simp, fun _ => rfl⟩

theorem append {shown restored more moreRestored : List Token} (first : Restores shown restored)
    (second : Restores more moreRestored) :
    Restores (shown ++ more) (restored ++ moreRestored) := by
  refine ⟨fun t member => ?_, fun following => ?_⟩
  · rcases List.mem_append.mp member with inFirst | inSecond
    · exact first.legible t inFirst
    · exact second.legible t inSecond
  · rw [List.append_assoc, first.closed, second.closed, List.append_assoc]

theorem single {t : Token} (legible : t.kind ≠ .error) (notOpening : t.kind ≠ .leftParen) :
    Restores [t] [t] := by
  refine ⟨by simpa using legible, fun following => ?_⟩
  have opened : (t.kind == .leftParen) = false := beq_eq_false_iff_ne.mpr notOpening
  simp [restoreHeads, restoreHeadsAfter, opened]

/-- A parenthesis and the head after it. -/
theorem head {opening head : Token} (isOpening : opening.kind = .leftParen)
    (isHead : head.kind = .identifier) : Restores [opening, head] [opening, head.asHead] := by
  refine ⟨by simp [isOpening, isHead], fun following => ?_⟩
  have opened : (head.kind == .leftParen) = false := by simp [isHead]
  simp [restoreHeads, restoreHeadsAfter, isOpening, opened]

theorem restoreHeads_eq {shown restored : List Token} (restores : Restores shown restored) :
    restoreHeads shown = restored := by
  have alone := restores.closed []
  rwa [List.append_nil, show restoreHeads [] = [] from rfl, List.append_nil] at alone

end Restores

/-! ## The tokens of a printed expression -/

/-- The tokens are those of a printed expression: they spell it once heads are restored. -/
def Shows (shown : List Token) (node : Node) : Prop :=
  ∃ restored, Restores shown restored ∧ Spells restored node

theorem Shows.atom {t : Token} {node : Node} (spelled : Spells [t] node) : Shows [t] node := by
  obtain ⟨_, legible, notOpening⟩ := spelled.kind_ne
  exact ⟨[t], .single legible notOpening, spelled⟩

theorem Shows.definition {opening head name closing : Token} {body : List Token} {value : Node}
    (isOpening : opening.kind = .leftParen) (isHead : head.kind = .identifier)
    (word : head.text = "define") (isName : name.kind = .identifier) (shown : Shows body value)
    (isClosing : closing.kind = .rightParen) :
    Shows ([opening, head] ++ [name] ++ body ++ [closing]) (.definition name.text value) := by
  obtain ⟨restored, restores, spelled⟩ := shown
  have named : Restores [name] [name] := .single (by simp [isName]) (by simp [isName])
  have closed : Restores [closing] [closing] :=
    .single (by simp [isClosing]) (by simp [isClosing])
  have front := (Restores.head isOpening isHead).append named
  refine ⟨_, (front.append restores).append closed, ?_⟩
  have keyword : head.asHead.kind = .define := by simp [Token.asHead, isHead, word]
  exact .definition isOpening keyword isName spelled isClosing

theorem Shows.conditional {opening head closing : Token} {first second third : List Token}
    {condition onTrue onFalse : Node} (isOpening : opening.kind = .leftParen)
    (isHead : head.kind = .identifier) (word : head.text = "if")
    (shownFirst : Shows first condition) (shownSecond : Shows second onTrue)
    (shownThird : Shows third onFalse) (isClosing : closing.kind = .rightParen) :
    Shows ([opening, head] ++ first ++ second ++ third ++ [closing])
      (.conditional condition onTrue onFalse) := by
  obtain ⟨restored₁, restores₁, spelled₁⟩ := shownFirst
  obtain ⟨restored₂, restores₂, spelled₂⟩ := shownSecond
  obtain ⟨restored₃, restores₃, spelled₃⟩ := shownThird
  have closed : Restores [closing] [closing] :=
    .single (by simp [isClosing]) (by simp [isClosing])
  have front := (Restores.head isOpening isHead).append restores₁
  refine ⟨_, ((front.append restores₂).append restores₃).append closed, ?_⟩
  have keyword : head.asHead.kind = .conditional := by simp [Token.asHead, isHead, word]
  exact .conditional isOpening keyword spelled₁ spelled₂ spelled₃ isClosing

/-! ## Lexing a printed expression -/

namespace Lexer

theorem toList_render_definition (name : String) (value : Node) :
    (Node.definition name value).render.toList =
      '(' :: ("define".toList ++
        ' ' :: (name.toList ++ ' ' :: (value.render.toList ++ [')']))) := by
  simp only [Node.render, String.toList_append, List.append_assoc]
  rfl

theorem toList_render_conditional (condition onTrue onFalse : Node) :
    (Node.conditional condition onTrue onFalse).render.toList =
      '(' :: ("if".toList ++ ' ' :: (condition.render.toList ++ ' ' :: (onTrue.render.toList ++
        ' ' :: (onFalse.render.toList ++ [')'])))) := by
  simp only [Node.render, String.toList_append, List.append_assoc]
  rfl

/-- A parenthesis, the head of a form and a space. -/
theorem Lexes.form {word : String} {depth : Nat} {pos : Position} {rest : List Char}
    {tokens : List Token} (isHead : isName word.toList = true)
    (after : Lexes (depth + 1) (((pos.step '(').after word.toList).step ' ') rest tokens) :
    Lexes depth pos ('(' :: (word.toList ++ ' ' :: rest))
      (⟨.leftParen, "(", pos⟩ :: ⟨.identifier, word, pos.step '('⟩ :: tokens) := by
  have headed := Lexes.name isHead rfl (.blank rfl after)
  rw [String.ofList_toList] at headed
  exact .opening headed

/-- The class of names of a program that was lexed. -/
def NamedByLexer (name : String) : Prop := isName name.toList = true

/-- A printed expression in front of a text that ends a word is lexed to tokens that show it,
and then to the tokens of that text. -/
theorem lexes_render {node : Node} (expression : node.IsExpression NamedByLexer) :
    ∀ {depth : Nat} {pos : Position} {rest : List Char} {tokens : List Token},
      endsWord rest = true → Lexes depth (pos.after node.render.toList) rest tokens →
      ∃ shown, Shows shown node ∧
        Lexes depth pos (node.render.toList ++ rest) (shown ++ tokens) := by
  induction expression with
  | string text =>
      intro depth pos rest tokens _ after
      have spelled : Spells [⟨.string, Text.Quoted.encode text, pos⟩] (.string _) := .string rfl
      rw [Text.Quoted.decode_encode] at spelled
      exact ⟨_, .atom spelled, .quoted text after⟩
  | boolean value =>
      intro depth pos rest tokens ends after
      cases value with
      | true =>
          have spelled : Spells [⟨.boolean, ":true", pos⟩] (.boolean true) := .yes rfl rfl
          have word : ∀ c ∈ ['t', 'r', 'u', 'e'], isWordChar c = true :=
            List.all_eq_true.mp rfl
          exact ⟨_, .atom spelled, .reserved word rfl ends after⟩
      | false =>
          have spelled : Spells [⟨.boolean, ":false", pos⟩] (.boolean false) := .no rfl rfl
          have word : ∀ c ∈ ['f', 'a', 'l', 's', 'e'], isWordChar c = true :=
            List.all_eq_true.mp rfl
          exact ⟨_, .atom spelled, .reserved word rfl ends after⟩
  | @ref name named =>
      intro depth pos rest tokens ends after
      have lexed := Lexes.name named ends after
      rw [String.ofList_toList] at lexed
      exact ⟨_, .atom (.ref rfl), lexed⟩
  | @definition name value named _ ih =>
      intro depth pos rest tokens ends after
      rw [toList_render_definition] at after ⊢
      simp only [Position.after_cons, Position.after_append, Position.after_nil] at after
      let namePos := ((pos.step '(').after "define".toList).step ' '
      let closePos := ((namePos.after name.toList).step ' ').after value.render.toList
      have closed : Lexes (depth + 1) closePos (')' :: rest)
          (⟨.rightParen, ")", closePos⟩ :: tokens) := .closing after
      obtain ⟨shown, shows, lexed⟩ := ih rfl closed
      have lexedName := Lexes.name named rfl (.blank rfl lexed)
      rw [String.ofList_toList] at lexedName
      have shownForm : Shows ([⟨.leftParen, "(", pos⟩, ⟨.identifier, "define", pos.step '('⟩] ++
          [⟨.identifier, name, namePos⟩] ++ shown ++ [⟨.rightParen, ")", closePos⟩])
          (.definition name value) := .definition rfl rfl rfl rfl shows rfl
      exact ⟨_, shownForm, by simpa using Lexes.form rfl lexedName⟩
  | @conditional condition onTrue onFalse _ _ _ first second third =>
      intro depth pos rest tokens ends after
      rw [toList_render_conditional] at after ⊢
      simp only [Position.after_cons, Position.after_append, Position.after_nil] at after
      let firstPos := ((pos.step '(').after "if".toList).step ' '
      let secondPos := (firstPos.after condition.render.toList).step ' '
      let thirdPos := (secondPos.after onTrue.render.toList).step ' '
      let closePos := thirdPos.after onFalse.render.toList
      have closed : Lexes (depth + 1) closePos (')' :: rest)
          (⟨.rightParen, ")", closePos⟩ :: tokens) := .closing after
      obtain ⟨shown₃, shows₃, lexed₃⟩ := third rfl closed
      obtain ⟨shown₂, shows₂, lexed₂⟩ := second rfl (.blank rfl lexed₃)
      obtain ⟨shown₁, shows₁, lexed₁⟩ := first rfl (.blank rfl lexed₂)
      have shownForm : Shows ([⟨.leftParen, "(", pos⟩, ⟨.identifier, "if", pos.step '('⟩] ++
          shown₁ ++ shown₂ ++ shown₃ ++ [⟨.rightParen, ")", closePos⟩])
          (.conditional condition onTrue onFalse) :=
        .conditional rfl rfl rfl shows₁ shows₂ shows₃ rfl
      exact ⟨_, shownForm, by simpa using Lexes.form rfl lexed₁⟩

/-- Printed statements are lexed to their end, and their tokens spell them once heads are
restored.  The line feed between neighbours ends the first of them. -/
theorem lexes_renderLines {nodes : List Node}
    (expressions : ∀ node ∈ nodes, node.IsExpression NamedByLexer) (pos : Position) :
    ∃ shown restored, Lexes 0 pos (Node.renderLines nodes).toList shown ∧
      Restores shown restored ∧ SpellsAll restored nodes := by
  induction nodes generalizing pos with
  | nil => exact ⟨[], [], .done, .nil, .nil⟩
  | cons node rest ih =>
      obtain ⟨expression, others⟩ := List.forall_mem_cons.mp expressions
      cases rest with
      | nil =>
          have after : Lexes 0 (pos.after node.render.toList) [] [] := .done
          obtain ⟨shown, ⟨restored, restores, spelled⟩, lexed⟩ := lexes_render expression rfl after
          refine ⟨shown, restored, by simpa [Node.renderLines] using lexed, restores, ?_⟩
          rw [← List.append_nil restored]
          exact .cons spelled .nil
      | cons next rest =>
          obtain ⟨more, moreRestored, lexedMore, restoresMore, spelledMore⟩ :=
            ih others ((pos.after node.render.toList).step '\n')
          have after : Lexes 0 (pos.after node.render.toList)
              ('\n' :: (Node.renderLines (next :: rest)).toList) more := .blank rfl lexedMore
          obtain ⟨shown, ⟨restored, restores, spelled⟩, lexed⟩ := lexes_render expression rfl after
          have text : (Node.renderLines (node :: next :: rest)).toList =
              node.render.toList ++ '\n' :: (Node.renderLines (next :: rest)).toList := by
            simp [Node.renderLines]
          refine ⟨shown ++ more, restored ++ moreRestored, ?_, restores.append restoresMore, ?_⟩
          · rw [text]
            exact lexed
          · exact .cons spelled spelledMore

end Lexer

/-! ## The whole program -/

/-- **A printed program is read back.**  No token of its printed form is illegible, and with
the heads of forms restored the tokens parse to the same program. -/
theorem parse_restoreHeads_tokenize_render {source : String} {program : Node}
    (parsed : parse (tokenize source) = .ok program) :
    (∀ t ∈ tokenize program.render, t.kind ≠ .error) ∧
      parse (restoreHeads (tokenize program.render)) = .ok program := by
  obtain ⟨nodes, rfl, spelled⟩ := spellsAll_of_parse parsed
  have named : ∀ t ∈ beforeEnd (tokenize source), t.kind = .identifier →
      Lexer.NamedByLexer t.text := by
    intro t member identifier
    have lexed : t ∈ tokenize source := (List.takeWhile_prefix _).subset member
    exact (Lexer.lexes_tokenize source).isName_of_identifier t lexed identifier
  obtain ⟨shown, restored, lexed, restores, spelledAgain⟩ :=
    Lexer.lexes_renderLines (spelled.isExpression named) Position.start
  have tokens : tokenize (Node.program nodes).render = shown := Lexer.tokenize_of_lexes lexed
  rw [tokens, restores.restoreHeads_eq]
  exact ⟨restores.legible, spelledAgain.parse_eq⟩

/-- Names that look like numerals, a head that is also a name, and a text with a quote, a
backslash and a line feed in it. -/
theorem exists_restored_of_signs_and_escapes :
    ∃ program, parse (tokenize "(:define --5 \"a\\\"\\\\\\nλ\")(:if - (:define if +)\n:true) if") =
        .ok program ∧
      parse (restoreHeads (tokenize program.render)) = .ok program := by
  have parsed :
      parse (tokenize "(:define --5 \"a\\\"\\\\\\nλ\")(:if - (:define if +)\n:true) if") =
        .ok (.program [.definition "--5" (.string "a\"\\\nλ"),
          .conditional (.ref "-") (.definition "if" (.ref "+")) (.boolean true), .ref "if"]) := by
    rfl
  exact ⟨_, parsed, (parse_restoreHeads_tokenize_render parsed).2⟩

end ColonLisp
