/-
# Proofs.Lookahead -- what follows a token does not change it

The lexer decides where a token ends by the characters that follow it.  `endsWord` is the
class of texts that cannot prolong a word.

* Put after the whole text, such a text changes no token: `Class.of?_append`,
  `Class.read_append`, and for all tokens up to it `Lexes.append`.
* A token is read as itself if it stands alone (`Class.isLexeme_of_read`), and so before any
  text that ends a word (`Lexes.of_isLexeme`).  A quoted text carries its own end, and may
  stand before every text (`Lexes.of_isLexeme_string`).

Every legible token of every text is a parenthesis or such a lexeme
(`Lexes.isLexeme_of_mem`).
-/
import ColonLisp.Proofs.Names
import ColonLisp.Proofs.Numerals

set_option autoImplicit false

namespace ColonLisp

/-! ## Blanks and numerals -/

namespace Text

/-- The ranges of the two classes do not meet. -/
theorem blankRanges_disjoint :
    ∀ blank ∈ blankRanges, ∀ other ∈ alphanumericRanges,
      blank.2 < other.1 ∨ other.2 < blank.1 := by
  have apart : (blankRanges.all fun blank => alphanumericRanges.all fun other =>
      blank.2.blt other.1 || other.2.blt blank.1) = true := by
    decide +kernel
  simpa only [List.all_eq_true, Bool.or_eq_true, Nat.blt_eq] using apart

/-- No blank is a letter or a digit of any script. -/
theorem isAlphanumeric_of_isBlank {c : Char} (blank : isBlank c = true) :
    isAlphanumeric c = false := by
  refine Bool.eq_false_iff.mpr fun alphanumeric => ?_
  unfold isAlphanumeric at alphanumeric
  split at alphanumeric
  · have word : Lexer.isWordChar c = true := by simp [Lexer.isWordChar, alphanumeric]
    rw [Lexer.isWordChar_of_isBlank blank] at word
    cases word
  · obtain ⟨range, member, low, high⟩ := (inRanges_iff _ c).mp blank
    obtain ⟨other, member', low', high'⟩ := (inRanges_iff _ c).mp alphanumeric
    have := blankRanges_disjoint range member other member'
    omega

end Text

namespace Lexer

open Token.Numeral (begins isNumeralChar isBlocked)

/-- What ends a word prolongs no numeral. -/
theorem begins_of_endsWord {text : List Char} (ends : endsWord text = true) :
    begins isNumeralChar text = false := by
  cases text with
  | nil => rfl
  | cons c text =>
      obtain ⟨noWord, noPoint⟩ := not_isWordChar_of_endsWord ends
      have noPlus : c ≠ '+' := by
        rintro rfl
        cases ends
      have noMinus : c ≠ '-' := by
        rintro rfl
        cases noWord
      have noLetter : c.isAlphanum = false := by
        simp only [isWordChar, Bool.or_eq_false_iff] at noWord
        exact noWord.1.1
      simp [isNumeralChar, Token.Numeral.isSign, noLetter, noPoint, noPlus, noMinus]

/-- What ends a word may follow a numeral. -/
theorem isBlocked_of_endsWord {text : List Char} (ends : endsWord text = true) :
    isBlocked text = false := by
  cases text with
  | nil => rfl
  | cons c text =>
      simp only [endsWord, Bool.or_eq_true, beq_iff_eq] at ends
      rcases ends with ((blank | rfl) | rfl) | rfl
      · have noWord := isWordChar_of_isBlank blank
        have noUnderscore : c ≠ '_' := by
          rintro rfl
          cases noWord
        have noPoint : c ≠ '.' := by
          rintro rfl
          cases blank
        simp [isBlocked, Text.isAlphanumeric_of_isBlank blank, noUnderscore, noPoint]
      all_goals rfl

/-! ## More text after a token -/

theorem Class.of?_append {more : List Char} (ends : endsWord more = true) (c : Char)
    (rest : List Char) : Class.of? c (rest ++ more) = Class.of? c rest := by
  simp only [Class.of?, opens_append_of_endsWord ends]

theorem run_append_of_endsWord {more : List Char} (ends : endsWord more = true)
    (text : List Char) :
    (text ++ more).takeWhile isWordChar = text.takeWhile isWordChar ∧
      (text ++ more).dropWhile isWordChar = text.dropWhile isWordChar ++ more := by
  have stops : begins isWordChar more = false := stops_of_endsWord ends
  have taken := Token.Numeral.run_append_of_begins stops text
  exact ⟨congrArg Prod.fst taken, congrArg Prod.snd taken⟩

/-- A token that is read is read alike with more text after the whole. -/
theorem Class.read_append {cls : Class} {head : Char} {tail more : List Char} {lexeme : Lexeme}
    (read : cls.read head tail = .ok lexeme) (ends : endsWord more = true) :
    cls.read head (tail ++ more) = .ok { lexeme with rest := lexeme.rest ++ more } := by
  obtain ⟨taken, dropped⟩ := run_append_of_endsWord ends tail
  cases cls with
  | quoted =>
      simp only [Class.read] at read ⊢
      split at read
      · rename_i units rest closed
        cases read
        rw [← Text.Quoted.append_of_closed? closed, List.append_assoc,
          Text.Quoted.closed?_units closed]
      · cases read
  | keyword =>
      simp only [Class.read, taken, dropped] at read ⊢
      split at read
      · rename_i kind found
        cases read
        simp only
      · cases read
  | numeral =>
      simp only [Class.read] at read ⊢
      split at read
      · rename_i digits rest found
        cases read
        have longer := Token.Numeral.read?_append found (begins_of_endsWord ends)
          (isBlocked_of_endsWord ends)
        rw [List.cons_append] at longer
        rw [longer]
      · cases read
  | word =>
      cases read
      simp only [Class.read, taken, dropped]

/-- **More lines change no token before them.**  A text that can be read to its end gives the
same tokens when a text that ends a word follows, and then the tokens of that text. -/
theorem Lexes.append {depth : Nat} {pos : Position} {text more : List Char}
    {tokens after : List Token} (lexed : Lexes depth pos text tokens)
    (legible : ∀ t ∈ tokens, t.kind ≠ .error) (ends : endsWord more = true)
    (next : Lexes 0 (pos.after text) more after) :
    Lexes depth pos (text ++ more) (tokens ++ after) := by
  induction lexed with
  | done => exact next
  | blank blank _ ih => exact .blank blank (ih legible next)
  | opening _ ih => exact .opening (ih (List.forall_mem_cons.mp legible).2 next)
  | closing _ ih => exact .closing (ih (List.forall_mem_cons.mp legible).2 next)
  | @lexeme _ pos c rest cls lexeme tokens found read _ ih =>
      have next : Lexes 0 ((pos.after lexeme.chars).after lexeme.rest) more after := by
        rw [← Position.after_append, Class.append_of_read read]
        exact next
      have later := ih (List.forall_mem_cons.mp legible).2 next
      rw [← Class.of?_append ends] at found
      have longer := Lexes.lexeme found (Class.read_append read ends) later
      exact longer
  | unclosed | unopened | illegible | strange =>
      exact absurd rfl (legible _ List.mem_cons_self)

/-! ## Tokens that stand alone -/

/-- The characters alone are one token of the kind. -/
def IsLexeme (kind : Token.Kind) (chars : List Char) : Prop :=
  ∃ c tail cls, chars = c :: tail ∧ Class.of? c tail = some cls ∧
    cls.read c tail = .ok ⟨kind, chars, []⟩

theorem run_takeWhile (tail : List Char) :
    (tail.takeWhile isWordChar).takeWhile isWordChar = tail.takeWhile isWordChar ∧
      (tail.takeWhile isWordChar).dropWhile isWordChar = [] := by
  have alone := Token.Numeral.run_alone isWordChar tail
  exact ⟨congrArg Prod.fst alone, congrArg Prod.snd alone⟩

/-- Every token that is read from a text is one alone. -/
theorem Class.isLexeme_of_read {cls : Class} {c : Char} {rest : List Char} {lexeme : Lexeme}
    (found : Class.of? c rest = some cls) (read : cls.read c rest = .ok lexeme) :
    IsLexeme lexeme.kind lexeme.chars := by
  obtain ⟨taken, dropped⟩ := run_takeWhile rest
  rcases Class.of?_cases found with ⟨rfl, rfl⟩ | ⟨rfl, rfl⟩ | ⟨rfl, opens⟩ | ⟨rfl, _, _⟩
  · simp only [Class.read] at read
    split at read
    · rename_i units after closed
      cases read
      have alone := Text.Quoted.closed?_units closed []
      rw [List.append_nil] at alone
      exact ⟨'"', units, .quoted, rfl, rfl, by simp only [Class.read, alone]⟩
    · cases read
  · simp only [Class.read] at read
    split at read
    · rename_i kind isKeyword
      cases read
      refine ⟨':', rest.takeWhile isWordChar, .keyword, rfl, rfl, ?_⟩
      simp only [Class.read, taken, dropped, isKeyword]
    · cases read
  · simp only [Class.read] at read
    split at read
    · rename_i digits after numeral
      cases read
      have alone := Token.Numeral.read?_alone numeral
      have whole := Token.Numeral.append_of_read? numeral
      cases digits with
      | nil => exact absurd rfl (Token.Numeral.ne_nil_of_read? numeral)
      | cons d tail =>
          cases whole
          refine ⟨c, tail, .numeral, rfl, ?_, by simp only [Class.read, alone]⟩
          rw [← found]
          simp only [Class.of?, opens, Token.Numeral.opens_of_read? alone]
    · cases read
  · have alone := Class.of?_name (isName_of_of? found) (show endsWord [] = true from rfl)
    rw [List.append_nil] at alone
    cases read
    exact ⟨c, _, .word, rfl, alone, by simp only [Class.read, taken, dropped]⟩

/-- A token may stand before any text that ends a word. -/
theorem Lexes.of_isLexeme {kind : Token.Kind} {chars rest : List Char} {depth : Nat}
    {pos : Position} {tokens : List Token} (isLexeme : IsLexeme kind chars)
    (ends : endsWord rest = true) (after : Lexes depth (pos.after chars) rest tokens) :
    Lexes depth pos (chars ++ rest) (⟨kind, String.ofList chars, pos⟩ :: tokens) := by
  obtain ⟨c, tail, cls, rfl, found, read⟩ := isLexeme
  rw [← Class.of?_append ends] at found
  have longer := Lexes.lexeme found (Class.read_append read ends) after
  exact longer

/-- A quoted text may stand before any text. -/
theorem Lexes.of_isLexeme_string {chars rest : List Char} {depth : Nat} {pos : Position}
    {tokens : List Token} (isLexeme : IsLexeme .string chars)
    (after : Lexes depth (pos.after chars) rest tokens) :
    Lexes depth pos (chars ++ rest) (⟨.string, String.ofList chars, pos⟩ :: tokens) := by
  obtain ⟨c, tail, cls, rfl, found, read⟩ := isLexeme
  have kind := Class.kind_mem_of_read read
  rcases Class.of?_cases found with ⟨rfl, rfl⟩ | ⟨rfl, _⟩ | ⟨rfl, _⟩ | ⟨rfl, _⟩
  · simp only [Class.read] at read
    split at read
    · rename_i units _ closed
      cases read
      have longer : Class.quoted.read '"' (tail ++ rest) = .ok ⟨.string, '"' :: tail, rest⟩ := by
        simp only [Class.read, Text.Quoted.closed?_units closed]
      exact .lexeme rfl longer after
    · cases read
  all_goals simp [Class.kinds] at kind

/-- Every legible token of a text is a parenthesis or a token by itself. -/
theorem Lexes.isLexeme_of_mem {depth : Nat} {pos : Position} {text : List Char}
    {tokens : List Token} (lexed : Lexes depth pos text tokens) :
    ∀ t ∈ tokens, t.kind ≠ .error →
      t.kind = .leftParen ∧ t.text = "(" ∨ t.kind = .rightParen ∧ t.text = ")" ∨
        IsLexeme t.kind t.text.toList := by
  induction lexed with
  | done => simp
  | blank _ _ ih => exact ih
  | opening _ ih | closing _ ih => simpa using ih
  | unclosed | unopened | illegible | strange => simp [Objection.token]
  | lexeme found read _ ih =>
      refine List.forall_mem_cons.mpr ⟨fun _ => .inr (.inr ?_), ih⟩
      rw [String.toList_ofList]
      exact Class.isLexeme_of_read found read

end Lexer

end ColonLisp
