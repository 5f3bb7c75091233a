/-
# Proofs.Names -- names, and what may follow a word

`isName` is the class of names, said without the lexer: a small letter or a sign, then
word characters, and not the beginning of a numeral.  Every identifier that the lexer
gives is a name (`Lexes.isName_of_identifier`).

A name need not be read as itself: `-` before `5` begins a numeral.  `endsWord` is the
class of texts that cannot prolong what stands before them: the end, a blank, a
parenthesis or a quote.  Before such a text a name, a reserved word and a quoted spelling
are each one token (`Lexes.name`, `Lexes.reserved`, `Lexes.quoted`); the last needs no
such text, because it carries its own end.
-/
import ColonLisp.Proofs.Lexing
import ColonLisp.Proofs.Quoting

set_option autoImplicit false

namespace ColonLisp.Lexer

/-- Whether a word is a name. -/
def isName : List Char → Bool
  | [] => false
  | c :: rest =>
      (c.isLower || c == '+' || c == '-') && rest.all isWordChar &&
        !Token.Numeral.opens (c :: rest)

/-- Whether a word that stands before a text ends there. -/
def endsWord : List Char → Bool
  | [] => true
  | c :: _ => Text.isBlank c || c == '(' || c == ')' || c == '"'

theorem isName_cons_iff {c : Char} {rest : List Char} :
    isName (c :: rest) = true ↔
      (c.isLower || c == '+' || c == '-') = true ∧ (∀ d ∈ rest, isWordChar d = true) ∧
        Token.Numeral.opens (c :: rest) = false := by
  simp [isName, and_assoc]

/-! ## What ends a word -/

theorem not_isWordChar_of_endsWord {c : Char} {rest : List Char}
    (ends : endsWord (c :: rest) = true) : isWordChar c = false ∧ c ≠ '.' := by
  simp only [endsWord, Bool.or_eq_true, beq_iff_eq] at ends
  rcases ends with ((blank | rfl) | rfl) | rfl
  · refine ⟨isWordChar_of_isBlank blank, ?_⟩
    rintro rfl
    cases blank
  all_goals decide

theorem not_startsDecimal_of_endsWord {text : List Char} (ends : endsWord text = true) :
    Token.Numeral.startsDecimal text = false := by
  cases text with
  | nil => rfl
  | cons c rest =>
      obtain ⟨noWord, noPoint⟩ := not_isWordChar_of_endsWord ends
      rw [Token.Numeral.startsDecimal]
      · refine Bool.eq_false_iff.mpr fun digit => ?_
        rw [isWordChar_iff.mpr (.inr (.inr (.inl digit)))] at noWord
        cases noWord
      · exact fun _ point => noPoint (List.cons.inj point).1

theorem stops_of_endsWord {rest : List Char} (ends : endsWord rest = true) :
    rest.head?.any isWordChar = false := by
  cases rest with
  | nil => rfl
  | cons c rest => exact (not_isWordChar_of_endsWord ends).1

/-- Before a text that does not prolong it, a word is taken whole and nothing else is. -/
theorem run_word {word rest : List Char} (chars : ∀ c ∈ word, isWordChar c = true)
    (stops : rest.head?.any isWordChar = false) :
    (word ++ rest).takeWhile isWordChar = word ∧ (word ++ rest).dropWhile isWordChar = rest := by
  rw [List.takeWhile_append_of_pos chars, List.dropWhile_append_of_pos chars]
  cases rest with
  | nil => simp
  | cons c rest => simp [show isWordChar c = false from stops]

/-! ## Numerals at the front of a word -/

theorem startsDecimal_append_of_endsWord {rest : List Char} (ends : endsWord rest = true)
    (text : List Char) :
    Token.Numeral.startsDecimal (text ++ rest) = Token.Numeral.startsDecimal text := by
  match text with
  | [] => exact not_startsDecimal_of_endsWord ends
  | [c] =>
      by_cases point : c = '.'
      · subst point
        cases rest with
        | nil => rfl
        | cons d rest =>
            refine Bool.eq_false_iff.mpr fun digit => ?_
            have word := isWordChar_iff.mpr (.inr (.inr (.inl digit)))
            rw [(not_isWordChar_of_endsWord ends).1] at word
            cases word
      · simp [Token.Numeral.startsDecimal, Token.Numeral.startsWithDigit, point]
  | c :: d :: text =>
      by_cases point : c = '.'
      · subst point
        rfl
      · simp [Token.Numeral.startsDecimal, Token.Numeral.startsWithDigit, point]

/-- A text begins a numeral before a text that ends a word only if it does so alone. -/
theorem opens_append_of_endsWord {rest : List Char} (ends : endsWord rest = true) (c : Char)
    (text : List Char) :
    Token.Numeral.opens (c :: (text ++ rest)) = Token.Numeral.opens (c :: text) := by
  simp only [Token.Numeral.opens, Token.Numeral.sign]
  by_cases sign : c = '+' ∨ c = '-'
  · rw [if_pos sign, if_pos sign]
    exact startsDecimal_append_of_endsWord ends text
  · rw [if_neg sign, if_neg sign]
    exact startsDecimal_append_of_endsWord ends (c :: text)

theorem startsWithDigit_append {text : List Char} (more : List Char)
    (digit : Token.Numeral.startsWithDigit text = true) :
    Token.Numeral.startsWithDigit (text ++ more) = true := by
  cases text with
  | nil => cases digit
  | cons c rest => exact digit

theorem startsDecimal_append {text : List Char} (more : List Char)
    (starts : Token.Numeral.startsDecimal text = true) :
    Token.Numeral.startsDecimal (text ++ more) = true := by
  unfold Token.Numeral.startsDecimal at starts
  split at starts
  · exact startsWithDigit_append more starts
  · rename_i noPoint
    rw [Token.Numeral.startsDecimal]
    · exact startsWithDigit_append more starts
    · intro rest point
      cases text with
      | nil => cases starts
      | cons c tail => exact noPoint tail (congrArg (· :: tail) (List.cons.inj point).1)

/-- What begins a numeral still does so when more follows. -/
theorem opens_append {c : Char} {word : List Char} (more : List Char)
    (opens : Token.Numeral.opens (c :: word) = true) :
    Token.Numeral.opens (c :: (word ++ more)) = true := by
  simp only [Token.Numeral.opens, Token.Numeral.sign] at opens ⊢
  by_cases sign : c = '+' ∨ c = '-'
  · rw [if_pos sign] at opens ⊢
    exact startsDecimal_append more opens
  · rw [if_neg sign] at opens ⊢
    exact startsDecimal_append more opens

/-! ## Words that are one token -/

theorem Class.of?_of_starts {c : Char} {rest : List Char}
    (starts : (c.isLower || c == '+' || c == '-') = true)
    (noNumeral : Token.Numeral.opens (c :: rest) = false) : Class.of? c rest = some .word := by
  have noQuote : c ≠ '"' := by
    rintro rfl
    cases starts
  have noColon : c ≠ ':' := by
    rintro rfl
    cases starts
  simp [Class.of?, noQuote, noColon, noNumeral, starts]

theorem Class.of?_name {c : Char} {word rest : List Char} (name : isName (c :: word) = true)
    (ends : endsWord rest = true) : Class.of? c (word ++ rest) = some .word := by
  obtain ⟨starts, _, noNumeral⟩ := isName_cons_iff.mp name
  rw [← opens_append_of_endsWord ends] at noNumeral
  exact Class.of?_of_starts starts noNumeral

theorem Lexes.name {name rest : List Char} {depth : Nat} {pos : Position} {tokens : List Token}
    (isName : isName name = true) (ends : endsWord rest = true)
    (after : Lexes depth (pos.after name) rest tokens) :
    Lexes depth pos (name ++ rest) (⟨.identifier, String.ofList name, pos⟩ :: tokens) := by
  cases name with
  | nil => cases isName
  | cons c word =>
      obtain ⟨_, chars, _⟩ := isName_cons_iff.mp isName
      obtain ⟨taken, dropped⟩ := run_word chars (stops_of_endsWord ends)
      have read : Class.word.read c (word ++ rest) = .ok ⟨.identifier, c :: word, rest⟩ := by
        rw [Class.read, taken, dropped]
      exact .lexeme (Class.of?_name isName ends) read after

theorem Lexes.reserved {word rest : List Char} {kind : Token.Kind} {depth : Nat} {pos : Position}
    {tokens : List Token} (chars : ∀ c ∈ word, isWordChar c = true)
    (found : Token.Kind.ofKeyword? (String.ofList (':' :: word)) = some kind)
    (ends : endsWord rest = true) (after : Lexes depth (pos.after (':' :: word)) rest tokens) :
    Lexes depth pos (':' :: word ++ rest) (⟨kind, String.ofList (':' :: word), pos⟩ :: tokens) := by
  obtain ⟨taken, dropped⟩ := run_word chars (stops_of_endsWord ends)
  have read : Class.keyword.read ':' (word ++ rest) = .ok ⟨kind, ':' :: word, rest⟩ := by
    simp only [Class.read, taken, dropped, found]
  exact .lexeme rfl read after

theorem Lexes.quoted {rest : List Char} {depth : Nat} {pos : Position} {tokens : List Token}
    (text : String)
    (after : Lexes depth (pos.after (Text.Quoted.encode text).toList) rest tokens) :
    Lexes depth pos ((Text.Quoted.encode text).toList ++ rest)
      (⟨.string, Text.Quoted.encode text, pos⟩ :: tokens) := by
  have read : Class.quoted.read '"' (Text.Quoted.encodeUnits text.toList ++ '"' :: rest) =
      .ok ⟨.string, '"' :: (Text.Quoted.encodeUnits text.toList ++ ['"']), rest⟩ := by
    simp only [Class.read, Text.Quoted.closed?_encodeUnits]
  rw [Text.Quoted.encode, String.toList_ofList] at after ⊢
  rw [List.append_assoc, List.cons_append, List.singleton_append]
  exact .lexeme rfl read after

/-! ## Identifiers are names -/

/-- What the class of words takes is a name. -/
theorem isName_of_of? {c : Char} {rest : List Char} (found : Class.of? c rest = some .word) :
    isName (c :: rest.takeWhile isWordChar) = true := by
  have chars : ∀ d ∈ rest.takeWhile isWordChar, isWordChar d = true :=
    List.all_eq_true.mp (List.all_takeWhile)
  rcases Class.of?_cases found with ⟨other, _⟩ | ⟨other, _⟩ | ⟨other, _⟩ | ⟨_, starts, noNumeral⟩
  · cases other
  · cases other
  · cases other
  refine isName_cons_iff.mpr ⟨starts, chars, Bool.eq_false_iff.mpr fun opens => ?_⟩
  have longer := opens_append (rest.dropWhile isWordChar) opens
  rw [List.takeWhile_append_dropWhile, noNumeral] at longer
  cases longer

/-- Only the class of words gives identifiers. -/
theorem Class.eq_word_of_identifier {cls : Class} {head : Char} {tail : List Char}
    {lexeme : Lexeme} (read : cls.read head tail = .ok lexeme)
    (identifier : lexeme.kind = .identifier) : cls = .word := by
  have kind := Class.kind_mem_of_read read
  rw [identifier] at kind
  revert kind
  cases cls <;> decide

/-- Every identifier of a text is a name. -/
theorem Lexes.isName_of_identifier {depth : Nat} {pos : Position} {text : List Char}
    {tokens : List Token} (lexed : Lexes depth pos text tokens) :
    ∀ t ∈ tokens, t.kind = .identifier → isName t.text.toList = true := by
  induction lexed with
  | done => simp
  | blank _ _ ih => exact ih
  | opening _ ih | closing _ ih => simpa using ih
  | unclosed | unopened | illegible | strange =>
      simp [Objection.token]
  | @lexeme _ _ c rest cls lexeme tokens found read _ ih =>
      intro t member identifier
      rcases List.mem_cons.mp member with rfl | later
      · have isWord := Class.eq_word_of_identifier read identifier
        rw [isWord] at found read
        cases read
        rw [String.toList_ofList]
        exact isName_of_of? found
      · exact ih t later identifier

end ColonLisp.Lexer
