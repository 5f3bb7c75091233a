/-
# Proofs.Lexing -- the tokens of a text as a derivation

`Lexes depth pos text tokens` derives the tokens of a text that begins at `pos` inside
`depth` open parentheses: one constructor for each thing the lexer can meet between two
tokens, and no fuel.  `lexes_iff` says that these are the tokens of the machine, so a fact
about the lexer is an induction on the derivation, and a text is lexed by building one.

Which constructor applies is decided by the first character alone, except that a sign
looks further.  The lemmas on characters say that the cases exclude each other: a token
begins with a visible ASCII character (`Class.visible_of_of?`), and blanks are none of
these (`isBlank_eq_false`).  The kind of a token tells its class
(`Class.kind_mem_of_read`).

Only the last token can be illegible (`Lexes.legible_dropLast`), so the strict reading has
the tokens exactly if all of them are legible (`scan_eq_ok_iff`).
-/
import ColonLisp.Token.Lexer

set_option autoImplicit false

namespace ColonLisp

namespace Lexer

/-! ## Characters -/

theorem isBlank_eq_false {c : Char} (low : 0x20 < c.toNat) (high : c.toNat < 0x85) :
    Text.isBlank c = false := by
  cases blank : Text.isBlank c with
  | false => rfl
  | true =>
      simp only [Text.isBlank, Text.inRanges, Text.blankRanges, List.any_cons, List.any_nil,
        Bool.or_eq_true, Bool.and_eq_true, decide_eq_true_eq, Bool.or_false] at blank
      omega

theorem isLower_iff {c : Char} : c.isLower = true ↔ 0x61 ≤ c.toNat ∧ c.toNat ≤ 0x7a := by
  change (decide (c.val ≥ 'a'.val) && decide (c.val ≤ 'z'.val)) = true ↔ _
  rw [Bool.and_eq_true, decide_eq_true_eq, decide_eq_true_eq]
  rfl

theorem isDigit_iff {c : Char} : c.isDigit = true ↔ 0x30 ≤ c.toNat ∧ c.toNat ≤ 0x39 := by
  change (decide (c.val ≥ '0'.val) && decide (c.val ≤ '9'.val)) = true ↔ _
  rw [Bool.and_eq_true, decide_eq_true_eq, decide_eq_true_eq]
  rfl

theorem isUpper_iff {c : Char} : c.isUpper = true ↔ 0x41 ≤ c.toNat ∧ c.toNat ≤ 0x5a := by
  change decide (c.val ≥ 'A'.val ∧ c.val ≤ 'Z'.val) = true ↔ _
  rw [decide_eq_true_eq]
  rfl

theorem isWordChar_iff {c : Char} :
    isWordChar c = true ↔
      c.isUpper = true ∨ c.isLower = true ∨ c.isDigit = true ∨ c = '_' ∨ c = '-' := by
  change (c.isUpper || c.isLower || c.isDigit || c == '_' || c == '-') = true ↔ _
  simp only [Bool.or_eq_true, beq_iff_eq, or_assoc]

theorem visible_of_isWordChar {c : Char} (word : isWordChar c = true) :
    0x20 < c.toNat ∧ c.toNat < 0x85 := by
  rcases isWordChar_iff.mp word with upper | lower | digit | rfl | rfl
  · have := isUpper_iff.mp upper
    omega
  · have := isLower_iff.mp lower
    omega
  · have := isDigit_iff.mp digit
    omega
  · decide
  · decide

/-- No blank is part of a word. -/
theorem isWordChar_of_isBlank {c : Char} (blank : Text.isBlank c = true) :
    isWordChar c = false := by
  refine Bool.eq_false_iff.mpr fun word => ?_
  obtain ⟨low, high⟩ := visible_of_isWordChar word
  rw [isBlank_eq_false low high] at blank
  cases blank

/-- A numeral begins with a digit, a sign or a point. -/
theorem of_opens {c : Char} {rest : List Char} (opens : Token.Numeral.opens (c :: rest) = true) :
    c.isDigit = true ∨ c = '+' ∨ c = '-' ∨ c = '.' := by
  simp only [Token.Numeral.opens, Token.Numeral.sign] at opens
  by_cases sign : c = '+' ∨ c = '-'
  · exact .inr (sign.elim .inl (.inr ∘ .inl))
  · rw [if_neg sign] at opens
    by_cases point : c = '.'
    · exact .inr (.inr (.inr point))
    · simp only [Token.Numeral.startsDecimal] at opens
      split at opens
      · rename_i same
        cases same
        exact absurd rfl point
      · exact .inl opens

/-- What the class of a token says about its first characters. -/
theorem Class.of?_cases {c : Char} {rest : List Char} {cls : Class}
    (found : Class.of? c rest = some cls) :
    cls = .quoted ∧ c = '"' ∨ cls = .keyword ∧ c = ':' ∨
      cls = .numeral ∧ Token.Numeral.opens (c :: rest) = true ∨
      cls = .word ∧ (c.isLower || c == '+' || c == '-') = true ∧
        Token.Numeral.opens (c :: rest) = false := by
  unfold Class.of? at found
  split at found
  · rename_i quote
    cases found
    exact .inl ⟨rfl, quote⟩
  split at found
  · rename_i colon
    cases found
    exact .inr (.inl ⟨rfl, colon⟩)
  split at found
  · rename_i opens
    cases found
    exact .inr (.inr (.inl ⟨rfl, opens⟩))
  split at found
  · rename_i noNumeral starts
    cases found
    exact .inr (.inr (.inr ⟨rfl, starts, Bool.eq_false_iff.mpr noNumeral⟩))
  · cases found

/-- A token longer than a parenthesis begins with a visible ASCII character. -/
theorem Class.visible_of_of? {c : Char} {rest : List Char} {cls : Class}
    (found : Class.of? c rest = some cls) :
    (0x20 < c.toNat ∧ c.toNat < 0x85) ∧ c ≠ '(' ∧ c ≠ ')' := by
  have first : c = '"' ∨ c = ':' ∨ c.isDigit = true ∨ c.isLower = true ∨ c = '+' ∨ c = '-' ∨
      c = '.' := by
    rcases Class.of?_cases found with ⟨_, quote⟩ | ⟨_, colon⟩ | ⟨_, opens⟩ | ⟨_, starts, _⟩
    · exact .inl quote
    · exact .inr (.inl colon)
    · rcases of_opens opens with digit | sign
      · exact .inr (.inr (.inl digit))
      · exact .inr (.inr (.inr (.inr sign)))
    · simp only [Bool.or_eq_true, beq_iff_eq] at starts
      rcases starts with (lower | plus) | minus
      · exact .inr (.inr (.inr (.inl lower)))
      · exact .inr (.inr (.inr (.inr (.inl plus))))
      · exact .inr (.inr (.inr (.inr (.inr (.inl minus)))))
  rcases first with rfl | rfl | digit | lower | rfl | rfl | rfl
  · decide
  · decide
  · have bounds := isDigit_iff.mp digit
    refine ⟨by omega, ?_, ?_⟩ <;> rintro rfl <;> revert bounds <;> decide
  · have bounds := isLower_iff.mp lower
    refine ⟨by omega, ?_, ?_⟩ <;> rintro rfl <;> revert bounds <;> decide
  all_goals decide

/-! ## Kinds -/

/-- The kinds of tokens that a class has. -/
def Class.kinds : Class → List Token.Kind
  | quoted => [.string]
  | keyword => [.boolean, .define, .conditional]
  | numeral => [.number]
  | word => [.identifier]

theorem Class.kind_mem_of_read {cls : Class} {head : Char} {tail : List Char} {lexeme : Lexeme}
    (read : cls.read head tail = .ok lexeme) : lexeme.kind ∈ cls.kinds := by
  cases cls with
  | keyword =>
      simp only [Class.read] at read
      split at read
      · rename_i kind found
        cases read
        simp only [Token.Kind.ofKeyword?, Token.keywords, List.lookup_cons,
          List.lookup_nil] at found
        repeat' split at found
        all_goals cases found
        all_goals simp [Class.kinds]
      · cases read
  | word =>
      cases read
      simp [Class.kinds]
  | quoted | numeral =>
      simp only [Class.read] at read
      split at read
      · cases read
        simp [Class.kinds]
      · cases read

/-- A token of a class is no parenthesis, and its text is its spelling. -/
theorem Class.kind_ne_of_read {cls : Class} {head : Char} {tail : List Char} {lexeme : Lexeme}
    (read : cls.read head tail = .ok lexeme) :
    lexeme.kind ≠ .leftParen ∧ lexeme.kind ≠ .rightParen ∧ lexeme.kind ≠ .error ∧
      lexeme.kind ≠ .endOfInput := by
  have member := Class.kind_mem_of_read read
  generalize lexeme.kind = kind at member ⊢
  revert kind
  cases cls <;> decide

/-! ## Derivations -/

/-- The tokens of a text that begins at a place, inside so many open parentheses. -/
inductive Lexes : Nat → Position → List Char → List Token → Prop where
  | done {pos : Position} : Lexes 0 pos [] []
  | unclosed {depth : Nat} {pos : Position} :
      Lexes (depth + 1) pos [] [Objection.unterminatedParen.token pos]
  | blank {depth : Nat} {pos : Position} {c : Char} {rest : List Char} {tokens : List Token} :
      Text.isBlank c = true → Lexes depth (pos.step c) rest tokens →
      Lexes depth pos (c :: rest) tokens
  | opening {depth : Nat} {pos : Position} {rest : List Char} {tokens : List Token} :
      Lexes (depth + 1) (pos.step '(') rest tokens →
      Lexes depth pos ('(' :: rest) (⟨.leftParen, "(", pos⟩ :: tokens)
  | closing {depth : Nat} {pos : Position} {rest : List Char} {tokens : List Token} :
      Lexes depth (pos.step ')') rest tokens →
      Lexes (depth + 1) pos (')' :: rest) (⟨.rightParen, ")", pos⟩ :: tokens)
  | unopened {pos : Position} {rest : List Char} :
      Lexes 0 pos (')' :: rest) [Objection.unexpectedParen.token pos]
  | lexeme {depth : Nat} {pos : Position} {c : Char} {rest : List Char} {cls : Class}
      {lexeme : Lexeme} {tokens : List Token} :
      Class.of? c rest = some cls → cls.read c rest = .ok lexeme →
      Lexes depth (pos.after lexeme.chars) lexeme.rest tokens →
      Lexes depth pos (c :: rest) (⟨lexeme.kind, String.ofList lexeme.chars, pos⟩ :: tokens)
  | illegible {depth : Nat} {pos : Position} {c : Char} {rest : List Char} {cls : Class}
      {why : Objection} :
      Class.of? c rest = some cls → cls.read c rest = .error why →
      Lexes depth pos (c :: rest) [why.token pos]
  | strange {depth : Nat} {pos : Position} {c : Char} {rest : List Char} :
      Text.isBlank c = false → c ≠ '(' → c ≠ ')' → Class.of? c rest = none →
      Lexes depth pos (c :: rest) [(Objection.unexpectedCharacter c).token pos]

/-! ## Derivations and the machine -/

/-- A blank moves the machine on and changes nothing else. -/
theorem Machine.step_blank {c : Char} (blank : Text.isBlank c = true) (depth : Nat) (pos : Position)
    (rest : List Char) :
    (Machine.between depth pos (c :: rest)).step =
      (Machine.between depth (pos.step c) rest).step := by
  simp only [Machine.step, List.takeWhile_cons, List.dropWhile_cons, blank, if_true,
    Position.after_cons]

theorem Machine.step_visible {c : Char} (visible : Text.isBlank c = false) (depth : Nat)
    (pos : Position) (rest : List Char) :
    (Machine.between depth pos (c :: rest)).step = atToken depth pos (c :: rest) := by
  simp [Machine.step, visible]

/-- Two steps of the machine: to the first character of a token, and over the token. -/
theorem Machine.tokens_of_of? {c : Char} {rest : List Char} {cls : Class}
    (found : Class.of? c rest = some cls) (depth : Nat) (pos : Position) :
    (Machine.between depth pos (c :: rest)).tokens =
      match cls.read c rest with
      | .ok lexeme =>
          ⟨lexeme.kind, String.ofList lexeme.chars, pos⟩ ::
            (Machine.between depth (pos.after lexeme.chars) lexeme.rest).tokens
      | .error why => [why.token pos] := by
  obtain ⟨⟨low, high⟩, notOpening, notClosing⟩ := Class.visible_of_of? found
  rw [Machine.tokens_eq, Machine.step_visible (isBlank_eq_false low high)]
  simp only [atToken, notOpening, notClosing, found, if_false]
  rw [Machine.tokens_eq, Machine.step]
  cases cls.read c rest <;> rfl

theorem Lexes.tokens_eq {depth : Nat} {pos : Position} {text : List Char} {tokens : List Token}
    (lexed : Lexes depth pos text tokens) : (Machine.between depth pos text).tokens = tokens := by
  induction lexed with
  | done => rfl
  | unclosed => rfl
  | blank blank _ ih => rw [← ih, Machine.tokens_eq, Machine.step_blank blank, ← Machine.tokens_eq]
  | opening _ ih =>
      rw [← ih, Machine.tokens_eq, Machine.step_visible (by decide)]
      rfl
  | closing _ ih =>
      rw [← ih, Machine.tokens_eq, Machine.step_visible (by decide)]
      rfl
  | unopened =>
      rw [Machine.tokens_eq, Machine.step_visible (by decide)]
      rfl
  | lexeme found read _ ih => rw [Machine.tokens_of_of? found, read, ← ih]
  | illegible found read => rw [Machine.tokens_of_of? found, read]
  | strange visible notOpening notClosing unknown =>
      rw [Machine.tokens_eq, Machine.step_visible visible]
      simp [atToken, notOpening, notClosing, unknown]

/-- Every text has a derivation. -/
theorem exists_lexes (depth : Nat) (pos : Position) (text : List Char) :
    ∃ tokens, Lexes depth pos text tokens := by
  -- Each token and each blank takes a character, so the text gets shorter.
  suffices ∀ bound depth pos (text : List Char), text.length ≤ bound →
      ∃ tokens, Lexes depth pos text tokens from this _ depth pos text (Nat.le_refl _)
  intro bound
  induction bound with
  | zero =>
      intro depth pos text short
      rw [List.length_eq_zero_iff.mp (Nat.le_zero.mp short)]
      cases depth with
      | zero => exact ⟨_, .done⟩
      | succ depth => exact ⟨_, .unclosed⟩
  | succ bound ih =>
      intro depth pos text short
      cases text with
      | nil => exact ih depth pos [] (Nat.zero_le _)
      | cons c rest =>
          have shorter : rest.length ≤ bound := Nat.le_of_succ_le_succ short
          by_cases blank : Text.isBlank c = true
          · obtain ⟨tokens, lexed⟩ := ih depth (pos.step c) rest shorter
            exact ⟨tokens, .blank blank lexed⟩
          by_cases opening : c = '('
          · subst opening
            obtain ⟨tokens, lexed⟩ := ih (depth + 1) (pos.step '(') rest shorter
            exact ⟨_, .opening lexed⟩
          by_cases closing : c = ')'
          · subst closing
            cases depth with
            | zero => exact ⟨_, .unopened⟩
            | succ depth =>
                obtain ⟨tokens, lexed⟩ := ih depth (pos.step ')') rest shorter
                exact ⟨_, .closing lexed⟩
          cases found : Class.of? c rest with
          | none => exact ⟨_, .strange (Bool.eq_false_iff.mpr blank) opening closing found⟩
          | some cls =>
              cases read : cls.read c rest with
              | error why => exact ⟨_, .illegible found read⟩
              | ok lexeme =>
                  have whole := congrArg List.length (Class.append_of_read read)
                  have some_char := List.length_pos_iff.mpr (Class.ne_nil_of_read read)
                  rw [List.length_append, List.length_cons] at whole
                  obtain ⟨tokens, lexed⟩ :=
                    ih depth (pos.after lexeme.chars) lexeme.rest (by omega)
                  exact ⟨_, .lexeme found read lexed⟩

/-- The derivable tokens are the tokens of the machine. -/
theorem lexes_iff {depth : Nat} {pos : Position} {text : List Char} {tokens : List Token} :
    Lexes depth pos text tokens ↔ (Machine.between depth pos text).tokens = tokens := by
  constructor
  · exact Lexes.tokens_eq
  · rintro rfl
    obtain ⟨tokens, lexed⟩ := exists_lexes depth pos text
    rw [lexed.tokens_eq]
    exact lexed

theorem lexes_tokenize (source : String) :
    Lexes 0 Position.start source.toList (tokenize source) :=
  lexes_iff.mpr rfl

theorem tokenize_of_lexes {source : String} {tokens : List Token}
    (lexed : Lexes 0 Position.start source.toList tokens) : tokenize source = tokens :=
  lexed.tokens_eq

/-! ## The last token -/

theorem Lexes.kind_ne_endOfInput {depth : Nat} {pos : Position} {text : List Char}
    {tokens : List Token} (lexed : Lexes depth pos text tokens) :
    ∀ t ∈ tokens, t.kind ≠ .endOfInput := by
  induction lexed with
  | done => simp
  | blank _ _ ih => exact ih
  | opening _ ih | closing _ ih => simpa using ih
  | unclosed | unopened | illegible | strange => simp [Objection.token]
  | lexeme _ read _ ih =>
      exact List.forall_mem_cons.mpr ⟨(Class.kind_ne_of_read read).2.2.2, ih⟩

/-- The lexer stops at the first thing it cannot read, so only the last token says so. -/
theorem Lexes.legible_dropLast {depth : Nat} {pos : Position} {text : List Char}
    {tokens : List Token} (lexed : Lexes depth pos text tokens) :
    ∀ t ∈ tokens.dropLast, t.kind ≠ .error := by
  have grown : ∀ {first : Token} {tokens : List Token}, first.kind ≠ .error →
      (∀ t ∈ tokens.dropLast, t.kind ≠ .error) →
      ∀ t ∈ (first :: tokens).dropLast, t.kind ≠ .error := by
    intro first tokens legible others
    cases tokens with
    | nil => simp
    | cons next rest => exact List.forall_mem_cons.mpr ⟨legible, others⟩
  induction lexed with
  | done | unclosed | unopened | illegible | strange => simp
  | blank _ _ ih => exact ih
  | opening _ ih | closing _ ih => exact grown (by simp) ih
  | lexeme _ read _ ih => exact grown (Class.kind_ne_of_read read).2.2.1 ih

end Lexer

/-! ## The strict reading -/

theorem scan_of_legible {source : String} (legible : ∀ t ∈ tokenize source, t.kind ≠ .error) :
    scan source = .ok (tokenize source) := by
  simp only [scan]
  split
  · rename_i last found
    have kind : last.isError = false := by
      simpa [Token.isError] using legible last (List.mem_of_getLast? found)
    simp [kind]
  · rfl

theorem scan_of_illegible {source : String} {t : Token} (member : t ∈ tokenize source)
    (illegible : t.kind = .error) : scan source = .error (.lexical t.pos t.text) := by
  -- An illegible token is the last one.
  have isLast : (tokenize source).getLast? = some t := by
    rcases List.eq_nil_or_concat (tokenize source) with none | ⟨front, last, whole⟩
    · simp [none] at member
    · have others := (Lexer.lexes_tokenize source).legible_dropLast
      rw [whole, List.concat_eq_append] at member others ⊢
      rw [List.dropLast_concat] at others
      rcases List.mem_append.mp member with inFront | atEnd
      · exact absurd illegible (others t inFront)
      · cases List.mem_singleton.mp atEnd
        simp
  simp [scan, isLast, Token.isError, illegible]

theorem scan_eq_ok_iff {source : String} {tokens : List Token} :
    scan source = .ok tokens ↔
      tokens = tokenize source ∧ ∀ t ∈ tokenize source, t.kind ≠ .error := by
  by_cases legible : ∀ t ∈ tokenize source, t.kind ≠ .error
  · rw [scan_of_legible legible, Except.ok.injEq, eq_comm]
    exact ⟨fun same => ⟨same, legible⟩, fun both => both.1⟩
  · simp only [Classical.not_forall, Classical.not_not] at legible
    obtain ⟨t, member, illegible⟩ := legible
    rw [scan_of_illegible member illegible]
    constructor
    · rintro ⟨⟩
    · rintro ⟨_, legible⟩
      exact absurd illegible (legible t member)

end ColonLisp
