/-
# Proofs.Balance -- the tokens of a source do not run out inside a form

The lexer and the reader count parentheses apart.  The lexer has a depth, and refuses a
source that ends inside a parenthesis; the reader has open forms, and has to object if the
tokens end inside one.  `parse_tokenize_meets_token`: on the tokens of a source it never has
to.  The place where the tokens run out has no part in the result, an objection stands at a
legible token of the source, and it is none of those that are made when a token is missing or
a word is not reserved.

* Legible tokens close what was open before them and what they open (`Lexes.balanced`).
* A step of the reader opens a form with a parenthesis and completes one with a parenthesis
  (`Step.balanced`), so a run of steps does (`Reads.balanced`).

So a reader that has taken all tokens of a source has no form open (`Reads.isComplete`), and a
reading that fails has refused a token (`refuses_of_read_tokenize`).
-/
import ColonLisp.Proofs.EarliestFault
import ColonLisp.Proofs.Lexing

set_option autoImplicit false

namespace ColonLisp

/-- How many of the tokens are of a kind. -/
def Token.count (kind : Kind) (tokens : List Token) : Nat := tokens.countP (·.kind == kind)

@[simp] theorem Token.count_nil (kind : Kind) : count kind [] = 0 := rfl

@[simp] theorem Token.count_cons (kind : Kind) (t : Token) (tokens : List Token) :
    count kind (t :: tokens) = count kind tokens + if t.kind = kind then 1 else 0 := by
  simp [count, List.countP_cons]

/-! ## The parentheses of the lexer -/

namespace Lexer

/-- Legible tokens close the parentheses that were open before them, and those they open. -/
theorem Lexes.balanced {depth : Nat} {pos : Position} {text : List Char} {tokens : List Token}
    (lexed : Lexes depth pos text tokens) (legible : ∀ t ∈ tokens, t.kind ≠ .error) :
    depth + Token.count .leftParen tokens = Token.count .rightParen tokens := by
  induction lexed with
  | done => rfl
  | unclosed | unopened | illegible | strange => simp [Objection.token] at legible
  | blank _ _ ih => exact ih legible
  | opening _ ih =>
      have inside := ih (List.forall_mem_cons.mp legible).2
      simp only [Token.count_cons, if_true, reduceCtorEq, if_false]
      omega
  | closing _ ih =>
      have outside := ih (List.forall_mem_cons.mp legible).2
      simp only [Token.count_cons, if_true, reduceCtorEq, if_false]
      omega
  | lexeme _ read _ ih =>
      obtain ⟨notOpening, notClosing, _⟩ := Class.kind_ne_of_read read
      simp only [Token.count_cons, notOpening, notClosing, if_false]
      exact ih (List.forall_mem_cons.mp legible).2

/-- A token has one of the kinds of reserved words only if it is that word. -/
theorem Lexes.mem_keywords {depth : Nat} {pos : Position} {text : List Char}
    {tokens : List Token} (lexed : Lexes depth pos text tokens) :
    ∀ t ∈ tokens, t.kind ∈ Class.keyword.kinds → (t.text, t.kind) ∈ Token.keywords := by
  induction lexed with
  | done => simp
  | blank _ _ ih => exact ih
  | opening _ ih | closing _ ih => exact List.forall_mem_cons.mpr ⟨by simp [Class.kinds], ih⟩
  | unclosed | unopened | illegible | strange => simp [Objection.token, Class.kinds]
  | @lexeme _ _ _ _ cls _ _ _ read _ ih =>
      refine List.forall_mem_cons.mpr ⟨fun reserved => ?_, ih⟩
      have kind := Class.kind_mem_of_read read
      cases cls with
      | keyword =>
          simp only [Class.read] at read
          split at read
          · rename_i found
            cases read
            obtain ⟨before, after, whole, _⟩ := List.lookup_eq_some_iff.mp found
            rw [whole]
            simp
          · cases read
      | quoted | numeral | word =>
          rw [List.mem_singleton.mp kind] at reserved
          simp [Class.kinds] at reserved

end Lexer

namespace Reader

/-! ## The parentheses of the reader -/

/-- How many forms are open: each has a hole, but the innermost is given one only when an
expression is awaited, and gives it up when it is complete. -/
def State.openForms (s : State) : Nat :=
  match s.focus with
  | .expression => s.holes.length
  | _ => s.holes.length + 1

theorem State.openForms_fill (s : State) (node : Node) :
    (s.fill node).openForms = s.holes.length := by
  unfold State.fill
  split
  · rename_i none
    simp [openForms, none]
  all_goals
    rename_i open_
    simp [openForms, open_]

theorem State.isComplete_of_openForms {s : State} (none : s.openForms = 0) :
    s.isComplete = true := by
  obtain ⟨done, holes, focus⟩ := s
  cases focus with
  | expression =>
      cases holes with
      | nil => rfl
      | cons hole outer => simp [openForms] at none
  | head | name | close => simp [openForms] at none

/-- A step opens a form with an opening parenthesis, completes one with a closing one, and
does neither with any other token. -/
theorem Step.balanced {s next : State} {t : Token} (step : Step s t next) :
    s.openForms + Token.count .leftParen [t] = next.openForms + Token.count .rightParen [t] := by
  cases step with
  | opening focus kind => simp [State.openForms, focus, kind]
  | atom focus spelled =>
      have openBefore : s.openForms = s.holes.length := by simp [State.openForms, focus]
      rw [State.openForms_fill, openBefore]
      cases spelled with
      | string kind | ref kind | yes kind | no kind => simp [kind]
  | define focus kind | conditional focus kind | name focus kind =>
      simp [State.openForms, focus, kind]
  | closing focus kind =>
      rw [State.openForms_fill]
      simp [State.openForms, focus, kind]

theorem Reads.balanced {s last : State} {tokens : List Token} (run : Reads s tokens last) :
    s.openForms + Token.count .leftParen tokens =
      last.openForms + Token.count .rightParen tokens := by
  induction run with
  | nil => rfl
  | cons step _ ih =>
      have first := step.balanced
      simp only [Token.count_cons, Token.count_nil] at first ⊢
      omega

/-- No token that a run takes is illegible. -/
theorem Reads.legible {s last : State} {tokens : List Token} (run : Reads s tokens last) :
    ∀ t ∈ tokens, t.kind ≠ .error := by
  induction run with
  | nil => simp
  | cons step _ ih => exact List.forall_mem_cons.mpr ⟨step.kind_ne.2, ih⟩

/-- A reader that has taken all tokens of a source has no form open. -/
theorem Reads.isComplete {source : String} {last : State}
    (run : Reads State.start (tokenize source) last) : last.isComplete = true := by
  have lexer := (Lexer.lexes_tokenize source).balanced run.legible
  have reader := run.balanced
  have start : State.start.openForms = 0 := rfl
  exact State.isComplete_of_openForms (by omega)

/-! ## Objections to the tokens of a source -/

/-- The objections to a token that is there and is spelled as its kind demands. -/
def Objection.isToToken : Objection → Bool
  | unsupportedExpression | booleanHead _ | call | unsupportedHead | unsupportedName
  | missingParen => true
  | unknownKeyword _ | missingExpression | missingHead | missingName => false

theorem isToToken_of_accept {s : State} {t : Token} {why : Objection}
    (spelled : t.kind = .boolean → (boolean? t.text).isSome = true)
    (objects : s.accept t = .error why) : why.isToToken = true := by
  unfold State.accept at objects
  repeat' split at objects
  all_goals cases objects
  any_goals rfl
  -- What is left is a boolean token that is no reserved word.
  rename_i isBoolean _ unknown
  rw [unknown] at spelled
  cases spelled isBoolean

/-- The diagnostics of those objections are not those of the others. -/
theorem Objection.message_of_isToToken {why : Objection} (toToken : why.isToToken = true) :
    why.message ≠ "expected expression" ∧
      why.message ≠ "expected definition or function call" ∧
      why.message ≠ "expected definition name" ∧
      ¬ "unknown keyword".toList <+: why.message.toList := by
  cases why with
  | unknownKeyword | missingExpression | missingHead | missingName => cases toToken
  | booleanHead text =>
      -- A quote comes first, and no other diagnostic begins with one.
      have quoted : (Objection.booleanHead text).message.toList.head? = some '\'' := by
        change ("'" ++ text ++ "' cannot be called").toList.head? = some '\''
        simp
      refine ⟨?_, ?_, ?_, ?_⟩
      · intro same
        simp [same] at quoted
      · intro same
        simp [same] at quoted
      · intro same
        simp [same] at quoted
      · rintro ⟨rest, same⟩
        simp [← same] at quoted
  | unsupportedExpression | call | unsupportedHead | unsupportedName | missingParen =>
      decide +kernel

/-- A reading of the tokens of a source fails only at one of them. -/
theorem refuses_of_read_tokenize {source : String} {stop : Position} {fault : Fault}
    (failed : (State.start.read stop (tokenize source)).1 = .error fault) :
    ∃ front t rest middle, tokenize source = front ++ t :: rest ∧
      Reads State.start front middle ∧ Refuses middle t fault := by
  have noEnd := (Lexer.lexes_tokenize source).kind_ne_endOfInput
  rcases reads_of_read_eq_error noEnd failed with refused | ⟨last, run, _⟩
  · exact refused
  · have ended := run.read_eq stop []
    rw [List.append_nil, State.read, State.finish, if_pos run.isComplete] at ended
    rw [ended] at failed
    cases failed

/-- The boolean tokens of a source are the two words. -/
theorem isSome_boolean?_of_mem {source : String} {t : Token} (member : t ∈ tokenize source)
    (isBoolean : t.kind = .boolean) : (boolean? t.text).isSome = true := by
  have word := (Lexer.lexes_tokenize source).mem_keywords t member
    (by simp [isBoolean, Lexer.Class.kinds])
  rw [isBoolean] at word
  simp only [Token.keywords, List.mem_cons, Prod.mk.injEq, reduceCtorEq, and_false, and_true,
    List.not_mem_nil, or_false] at word
  rcases word with text | text
  · rw [text]
    rfl
  · rw [text]
    rfl

end Reader

/-- **The tokens of a source do not run out inside a form.**  Whatever place were given for
their end, the result of reading them would be the same, so no objection stands at that
place; one that is made stands at a legible token of the source. -/
theorem parse_tokenize_meets_token (source : String) :
    (∀ stop, (Reader.State.start.read stop (tokenize source)).1 = parse (tokenize source)) ∧
      ∀ pos message, parse (tokenize source) = .error (.syntactic pos message) →
        (∃ t ∈ tokenize source, t.kind ≠ .error ∧ t.pos = pos) ∧
          message ≠ "expected expression" ∧
          message ≠ "expected definition or function call" ∧
          message ≠ "expected definition name" ∧
          ¬ "unknown keyword".toList <+: message.toList := by
  constructor
  · intro stop
    cases parsed : parse (tokenize source) with
    | ok program => exact Reader.read_eq_ok_iff.mpr (Reader.read_eq_ok_iff.mp parsed)
    | error fault =>
        obtain ⟨front, t, rest, middle, whole, run, refuses⟩ :=
          Reader.refuses_of_read_tokenize parsed
        rw [whole, run.read_eq]
        exact refuses.read_eq stop rest
  · intro pos message failed
    obtain ⟨front, t, rest, middle, whole, run, refuses⟩ := Reader.refuses_of_read_tokenize failed
    have member : t ∈ tokenize source := by
      rw [whole]
      simp
    cases refuses with
    | objection legible _ objects =>
        have toToken :=
          Reader.isToToken_of_accept (Reader.isSome_boolean?_of_mem member) objects
        exact ⟨⟨t, member, legible, rfl⟩, Reader.Objection.message_of_isToToken toToken⟩

example : parse (tokenize "(:if a b c d)") = .error (.syntactic ⟨1, 12⟩ "expected right paren") :=
  rfl

end ColonLisp
