/-
# Proofs.LexicalGrammar -- the lexer reads what the lexical grammar spells

The grammar is said without the lexer.  `Spelled` gives the characters of each kind of token
and what may stand after them; `Objects` gives the texts that begin with no token, and why.

`tokenize_follows_grammar`: the tokens of a source are spelled in it one after the other, with
blanks between them.  After any of them the lexer gives the next one that the grammar spells
there, stops with a fault exactly where the grammar objects, and ends only where nothing is left
to read and no parenthesis is open.

`Turn` is one turn of the lexer at a text that begins with no blank: it ends, or objects, or
gives a token.  Every derivation begins with a turn (`Lexes.turn`) and every turn is the
beginning of a derivation (`Turn.lexes`).  Since a text has only one derivation, it takes only
one turn, and that is the grammar's.
-/
import ColonLisp.Proofs.Balance
import ColonLisp.Proofs.NumeralGrammar
import ColonLisp.Proofs.Spacing

set_option autoImplicit false

namespace ColonLisp

namespace Lexer

open Text.Quoted (IsUnits)
open Token.Numeral (begins BeginsNumeral IsLongest IsNumeral isBlocked)

/-! ## The grammar -/

/-- The reserved words and their kinds. -/
inductive Reserved : String → Token.Kind → Prop where
  | yes : Reserved ":true" .boolean
  | no : Reserved ":false" .boolean
  | define : Reserved ":define" .define
  | conditional : Reserved ":if" .conditional

/-- A token of a kind has these characters before this text. -/
inductive Spelled : Token.Kind → List Char → List Char → Prop where
  | opening {rest : List Char} : Spelled .leftParen ['('] rest
  | closing {rest : List Char} : Spelled .rightParen [')'] rest
  | keyword {word : String} {kind : Token.Kind} {rest : List Char} : Reserved word kind →
      begins isWordChar rest = false → Spelled kind word.toList rest
  | name {c : Char} {tail rest : List Char} : c.isLower = true ∨ c = '+' ∨ c = '-' →
      (∀ d ∈ tail, isWordChar d = true) → begins isWordChar rest = false →
      ¬ BeginsNumeral (c :: tail ++ rest) → Spelled .identifier (c :: tail) rest
  | quoted {units rest : List Char} : IsUnits units →
      Spelled .string ('"' :: units ++ ['"']) rest
  | numeral {chars rest : List Char} : IsLongest IsNumeral (chars ++ rest) chars rest →
      isBlocked rest = false → Spelled .number chars rest

/-- What is wrong with a text, inside so many open parentheses, that begins with no token. -/
inductive Objects (depth : Nat) : List Char → Objection → Prop where
  | unclosed : 0 < depth → Objects depth [] .unterminatedParen
  | unopened {rest : List Char} : depth = 0 → Objects depth (')' :: rest) .unexpectedParen
  | unterminated {rest : List Char} : (∀ units, IsUnits units → ¬ units ++ ['"'] <+: rest) →
      Objects depth ('"' :: rest) .unterminatedString
  | unreserved {rest : List Char} :
      (∀ kind, ¬ Reserved (String.ofList (':' :: rest.takeWhile isWordChar)) kind) →
      Objects depth (':' :: rest)
        (.unexpectedKeyword (String.ofList (rest.takeWhile isWordChar)))
  | numeral {text numeral rest : List Char} : IsLongest IsNumeral text numeral rest →
      isBlocked rest = true → Objects depth text .illegalNumber
  | stranger {c : Char} {rest : List Char} : Text.isBlank c = false → c ∉ ['(', ')', '"', ':'] →
      ¬ (c.isLower = true ∨ c = '+' ∨ c = '-') → ¬ BeginsNumeral (c :: rest) →
      Objects depth (c :: rest) (.unexpectedCharacter c)

theorem Spelled.ne_nil {kind : Token.Kind} {chars rest : List Char}
    (spelled : Spelled kind chars rest) : chars ≠ [] := by
  cases spelled with
  | keyword reserved => cases reserved <;> simp
  | numeral longest =>
      rintro rfl
      have opens := Token.Numeral.opens_of_isNumeral longest.member []
      cases opens
  | opening | closing | name | quoted => simp

theorem Spelled.kind_ne_error {kind : Token.Kind} {chars rest : List Char}
    (spelled : Spelled kind chars rest) : kind ≠ .error := by
  cases spelled with
  | keyword reserved => cases reserved <;> simp
  | opening | closing | name | quoted | numeral => simp

/-! ## Classes of tokens and the grammar -/

theorem reserved_iff {word : String} {kind : Token.Kind} :
    Reserved word kind ↔ Token.Kind.ofKeyword? word = some kind := by
  constructor
  · rintro (_ | _ | _ | _) <;> rfl
  · intro found
    obtain ⟨before, after, whole, _⟩ := List.lookup_eq_some_iff.mp found
    have member : (word, kind) ∈ Token.keywords := by simp [whole]
    simp only [Token.keywords, List.mem_cons, Prod.mk.injEq, List.not_mem_nil, or_false] at member
    rcases member with ⟨rfl, rfl⟩ | ⟨rfl, rfl⟩ | ⟨rfl, rfl⟩ | ⟨rfl, rfl⟩
    · exact .yes
    · exact .no
    · exact .define
    · exact .conditional

theorem Reserved.eq_cons {word : String} {kind : Token.Kind} (reserved : Reserved word kind) :
    ∃ tail, word.toList = ':' :: tail ∧ ∀ c ∈ tail, isWordChar c = true := by
  cases reserved with
  | yes => exact ⟨"true".toList, by decide, List.all_eq_true.mp rfl⟩
  | no => exact ⟨"false".toList, by decide, List.all_eq_true.mp rfl⟩
  | define => exact ⟨"define".toList, by decide, List.all_eq_true.mp rfl⟩
  | conditional => exact ⟨"if".toList, by decide, List.all_eq_true.mp rfl⟩

theorem begins_dropWhile (cls : Char → Bool) (text : List Char) :
    begins cls (text.dropWhile cls) = false := by
  have first := List.head?_dropWhile_not cls text
  rw [begins]
  cases head : (text.dropWhile cls).head? with
  | none => rfl
  | some c =>
      rw [head] at first
      exact first

/-- What is read is spelled. -/
theorem Class.spelled_of_read {cls : Class} {c : Char} {rest : List Char} {lexeme : Lexeme}
    (found : Class.of? c rest = some cls) (read : cls.read c rest = .ok lexeme) :
    Spelled lexeme.kind lexeme.chars lexeme.rest := by
  have stops := begins_dropWhile isWordChar rest
  rcases Class.of?_cases found with
    ⟨rfl, rfl⟩ | ⟨rfl, rfl⟩ | ⟨rfl, opens⟩ | ⟨rfl, starts, noNumeral⟩
  · simp only [Class.read] at read
    split at read
    · rename_i body after closed
      cases read
      obtain ⟨units, isUnits, rfl⟩ := Text.Quoted.isUnits_of_closed? closed
      exact .quoted isUnits
    · cases read
  · simp only [Class.read] at read
    split at read
    · rename_i kind isKeyword
      cases read
      have spelled := Spelled.keyword (reserved_iff.mpr isKeyword) stops
      rwa [String.toList_ofList] at spelled
    · cases read
  · obtain ⟨numeral, after, longest, taken⟩ := Token.Numeral.read?_longest opens
    simp only [Class.read, taken] at read
    cases blocked : isBlocked after with
    | true => simp [blocked] at read
    | false =>
        rw [blocked] at read
        cases read
        exact .numeral (longest.whole ▸ longest) blocked
  · cases read
    simp only [Bool.or_eq_true, beq_iff_eq, or_assoc] at starts
    refine .name starts (List.all_eq_true.mp List.all_takeWhile) stops ?_
    rw [List.cons_append, List.takeWhile_append_dropWhile, ← Token.Numeral.opens_iff, noNumeral]
    simp

/-- Where nothing can be read, the grammar objects. -/
theorem Class.objects_of_read {cls : Class} {c : Char} {rest : List Char} {why : Objection}
    (found : Class.of? c rest = some cls) (read : cls.read c rest = .error why) (depth : Nat) :
    Objects depth (c :: rest) why := by
  rcases Class.of?_cases found with ⟨rfl, rfl⟩ | ⟨rfl, rfl⟩ | ⟨rfl, opens⟩ | ⟨rfl, _, _⟩
  · simp only [Class.read] at read
    split at read
    · cases read
    · rename_i unclosed
      cases read
      refine .unterminated ?_
      rintro units isUnits ⟨more, rfl⟩
      rw [List.append_assoc, List.singleton_append, Text.Quoted.closed?_of_isUnits isUnits]
        at unclosed
      cases unclosed
  · simp only [Class.read] at read
    split at read
    · cases read
    · rename_i unknown
      cases read
      refine .unreserved fun kind reserved => ?_
      rw [reserved_iff, unknown] at reserved
      cases reserved
  · obtain ⟨numeral, after, longest, taken⟩ := Token.Numeral.read?_longest opens
    simp only [Class.read, taken] at read
    cases blocked : isBlocked after with
    | true =>
        rw [blocked] at read
        cases read
        exact .numeral longest blocked
    | false => simp [blocked] at read
  · cases read

theorem Class.of?_of_opens {c : Char} {rest : List Char}
    (opens : Token.Numeral.opens (c :: rest) = true) : Class.of? c rest = some .numeral := by
  have noQuote : c ≠ '"' := by
    rintro rfl
    cases opens
  have noColon : c ≠ ':' := by
    rintro rfl
    cases opens
  simp [Class.of?, noQuote, noColon, opens]

theorem Class.of?_eq_none_iff {c : Char} {rest : List Char} :
    Class.of? c rest = none ↔ (c ≠ '"' ∧ c ≠ ':') ∧ ¬ BeginsNumeral (c :: rest) ∧
      ¬ (c.isLower = true ∨ c = '+' ∨ c = '-') := by
  rw [← Token.Numeral.opens_iff]
  by_cases quote : c = '"'
  · simp [Class.of?, quote]
  · by_cases colon : c = ':'
    · simp [Class.of?, colon]
    · by_cases opens : Token.Numeral.opens (c :: rest) = true
      · simp [Class.of?, quote, colon, opens]
      · simp [Class.of?, quote, colon, opens, or_assoc]

/-- The longest numeral of a text is read unless it is blocked. -/
theorem Class.numeral_read {c : Char} {tail numeral rest : List Char}
    (longest : IsLongest IsNumeral (c :: tail) numeral rest) :
    Class.of? c tail = some .numeral ∧
      Class.numeral.read c tail =
        if isBlocked rest then .error .illegalNumber else .ok ⟨.number, numeral, rest⟩ := by
  have opens : Token.Numeral.opens (c :: tail) = true :=
    Token.Numeral.opens_iff.mpr ⟨numeral, longest.member, rest, longest.whole⟩
  obtain ⟨numeral', rest', longest', taken⟩ := Token.Numeral.read?_longest opens
  obtain ⟨rfl, rfl⟩ := longest.unique longest'
  refine ⟨Class.of?_of_opens opens, ?_⟩
  cases blocked : isBlocked rest with
  | true => simp [Class.read, taken, blocked]
  | false => simp [Class.read, taken, blocked]

/-- Where the grammar objects, the lexer does. -/
theorem Objects.lexes {depth : Nat} {text : List Char} {why : Objection}
    (objects : Objects depth text why) (pos : Position) :
    Lexes depth pos text [why.token pos] := by
  cases objects with
  | unclosed some_open =>
      obtain ⟨outer, rfl⟩ := Nat.exists_eq_add_of_lt some_open
      rw [Nat.zero_add]
      exact .unclosed
  | unopened none_open =>
      subst none_open
      exact .unopened
  | @unterminated rest unclosed =>
      cases closed : Text.Quoted.closed? rest with
      | none =>
          have read : Class.quoted.read '"' rest = .error .unterminatedString := by
            simp only [Class.read, closed]
          exact .illegible rfl read
      | some split =>
          obtain ⟨units, isUnits, body⟩ := Text.Quoted.isUnits_of_closed? closed
          have whole := Text.Quoted.append_of_closed? closed
          exact absurd ⟨split.2, body ▸ whole⟩ (unclosed units isUnits)
  | @unreserved rest unknown =>
      cases found : Token.Kind.ofKeyword? (String.ofList (':' :: rest.takeWhile isWordChar)) with
      | none =>
          have read : Class.keyword.read ':' rest =
              .error (.unexpectedKeyword (String.ofList (rest.takeWhile isWordChar))) := by
            simp only [Class.read, found]
          exact .illegible rfl read
      | some kind => exact absurd (reserved_iff.mpr found) (unknown kind)
  | @numeral _ numeral rest longest blocked =>
      cases text with
      | nil =>
          have opens := Token.Numeral.opens_iff.mpr
            ⟨numeral, longest.member, rest, longest.whole⟩
          cases opens
      | cons c tail =>
          obtain ⟨found, read⟩ := Class.numeral_read longest
          rw [blocked] at read
          exact .illegible found read
  | @stranger c rest visible notSpecial noName noNumeral =>
      simp only [List.mem_cons, List.not_mem_nil, or_false, not_or] at notSpecial
      obtain ⟨noOpening, noClosing, noQuote, noColon⟩ := notSpecial
      exact .strange visible noOpening noClosing
        (Class.of?_eq_none_iff.mpr ⟨⟨noQuote, noColon⟩, noNumeral, noName⟩)

/-- What is spelled is read, if no parenthesis closes that was not open. -/
theorem Spelled.lexes {kind : Token.Kind} {chars rest : List Char} {depth inner : Nat}
    {pos : Position} {later : List Token} (spelled : Spelled kind chars rest)
    (balance : depth + (if kind = .leftParen then 1 else 0) =
      inner + if kind = .rightParen then 1 else 0)
    (lexed : Lexes inner (pos.after chars) rest later) :
    Lexes depth pos (chars ++ rest) (⟨kind, String.ofList chars, pos⟩ :: later) := by
  cases spelled with
  | opening =>
      cases balance
      exact .opening lexed
  | closing =>
      cases balance
      exact .closing lexed
  | @keyword word _ _ reserved stops =>
      have same : depth = inner := by cases reserved <;> exact balance
      subst same
      obtain ⟨tail, whole, chars⟩ := reserved.eq_cons
      obtain ⟨taken, dropped⟩ := run_word chars stops
      have read : Class.keyword.read ':' (tail ++ rest) = .ok ⟨kind, ':' :: tail, rest⟩ := by
        simp only [Class.read, taken, dropped, ← whole, String.ofList_toList,
          reserved_iff.mp reserved]
      rw [whole] at lexed ⊢
      exact .lexeme rfl read lexed
  | @name c tail _ starts chars stops noNumeral =>
      cases balance
      obtain ⟨taken, dropped⟩ := run_word chars stops
      rw [← Token.Numeral.opens_iff, Bool.not_eq_true] at noNumeral
      have found : Class.of? c (tail ++ rest) = some .word :=
        Class.of?_of_starts (by simpa [or_assoc] using starts) noNumeral
      have read : Class.word.read c (tail ++ rest) = .ok ⟨.identifier, c :: tail, rest⟩ := by
        simp only [Class.read, taken, dropped]
      exact .lexeme found read lexed
  | @quoted units _ isUnits =>
      cases balance
      have read : Class.quoted.read '"' (units ++ ['"'] ++ rest) =
          .ok ⟨.string, '"' :: units ++ ['"'], rest⟩ := by
        rw [List.append_assoc, List.singleton_append, Class.read,
          Text.Quoted.closed?_of_isUnits isUnits]
        rfl
      exact .lexeme rfl read lexed
  | numeral longest free =>
      cases balance
      cases chars with
      | nil => exact absurd rfl (Spelled.numeral longest free).ne_nil
      | cons c tail =>
          obtain ⟨found, read⟩ := Class.numeral_read longest
          rw [free] at read
          exact .lexeme found read lexed

/-! ## One turn -/

/-- One turn of the lexer at a text that begins with no blank. -/
inductive Turn (depth : Nat) (pos : Position) : List Char → List Token → Prop where
  | ends : depth = 0 → Turn depth pos [] []
  | objects {text : List Char} {why : Objection} : Objects depth text why →
      Turn depth pos text [why.token pos]
  | token {t : Token} {rest : List Char} {inner : Nat} {later : List Token} : t.pos = pos →
      Spelled t.kind t.text.toList rest →
      depth + Token.count .leftParen [t] = inner + Token.count .rightParen [t] →
      Lexes inner (pos.after t.text.toList) rest later →
      Turn depth pos (t.text.toList ++ rest) (t :: later)

theorem Turn.of_spelled {kind : Token.Kind} {chars rest : List Char} {depth inner : Nat}
    {pos : Position} {later : List Token} (spelled : Spelled kind chars rest)
    (balance : depth + (if kind = .leftParen then 1 else 0) =
      inner + if kind = .rightParen then 1 else 0)
    (lexed : Lexes inner (pos.after chars) rest later) :
    Turn depth pos (chars ++ rest) (⟨kind, String.ofList chars, pos⟩ :: later) := by
  obtain ⟨text, rfl⟩ : ∃ text : String, text.toList = chars := ⟨_, String.toList_ofList⟩
  rw [String.ofList_toList]
  refine .token (t := ⟨kind, text, pos⟩) rfl spelled ?_ lexed
  simpa using balance

theorem Turn.lexes {depth : Nat} {pos : Position} {text : List Char} {tokens : List Token}
    (turn : Turn depth pos text tokens) : Lexes depth pos text tokens := by
  cases turn with
  | ends closed =>
      subst closed
      exact .done
  | objects objects => exact objects.lexes pos
  | @token t rest _ _ place spelled balance later =>
      subst place
      have lexed := spelled.lexes (by simpa using balance) later
      rwa [String.ofList_toList] at lexed

theorem Turn.of_lexes {depth : Nat} {pos : Position} {text : List Char} {tokens : List Token}
    (lexed : Lexes depth pos text tokens) (visible : begins Text.isBlank text = false) :
    Turn depth pos text tokens := by
  cases lexed with
  | done => exact .ends rfl
  | unclosed => exact .objects (.unclosed (Nat.succ_pos _))
  | blank isBlank =>
      rw [Token.Numeral.begins_cons, isBlank] at visible
      cases visible
  | opening later => exact .of_spelled .opening rfl later
  | closing later => exact .of_spelled .closing rfl later
  | unopened => exact .objects (.unopened rfl)
  | lexeme found read later =>
      obtain ⟨notOpening, notClosing, _⟩ := Class.kind_ne_of_read read
      rw [← Class.append_of_read read]
      refine .of_spelled (Class.spelled_of_read found read) ?_ later
      rw [if_neg notOpening, if_neg notClosing]
  | illegible found read => exact .objects (Class.objects_of_read found read depth)
  | strange notBlank noOpening noClosing unknown =>
      obtain ⟨⟨noQuote, noColon⟩, noNumeral, noName⟩ := Class.of?_eq_none_iff.mp unknown
      exact .objects (.stranger notBlank (by simp [*]) noName noNumeral)

/-- A text has one derivation. -/
theorem Lexes.unique {depth : Nat} {pos : Position} {text : List Char} {tokens tokens' : List Token}
    (first : Lexes depth pos text tokens) (second : Lexes depth pos text tokens') :
    tokens = tokens' :=
  first.tokens_eq.symm.trans second.tokens_eq

/-- The first turn comes after the blanks. -/
theorem Lexes.turn {depth : Nat} {pos : Position} {text : List Char} {tokens : List Token}
    (lexed : Lexes depth pos text tokens) :
    ∃ gap rest, text = gap ++ rest ∧ (∀ c ∈ gap, Text.isBlank c = true) ∧
      rest = text.dropWhile Text.isBlank ∧ Turn depth (pos.after gap) rest tokens := by
  have whole := text.takeWhile_append_dropWhile (p := Text.isBlank)
  have blank : ∀ c ∈ text.takeWhile Text.isBlank, Text.isBlank c = true :=
    List.all_eq_true.mp List.all_takeWhile
  obtain ⟨tokens', later⟩ := exists_lexes depth (pos.after (text.takeWhile Text.isBlank))
    (text.dropWhile Text.isBlank)
  have same : tokens = tokens' := lexed.unique (whole ▸ Lexes.blanks blank later)
  rw [same]
  exact ⟨_, _, whole.symm, blank, rfl, .of_lexes later (begins_dropWhile _ _)⟩

/-- What the grammar says of a text, inside so many open parentheses, that begins with no
blank, is what the tokens say of it. -/
structure Follows (depth : Nat) (text : List Char) (tokens : List Token) : Prop where
  ends : tokens = [] ↔ text = [] ∧ depth = 0
  stops : (∃ t, tokens = [t] ∧ t.kind = .error) ↔ ∃ why, Objects depth text why
  message : ∀ why, Objects depth text why → ∀ t ∈ tokens, t.text = why.message
  reads : ∀ kind chars,
    (∃ t later, tokens = t :: later ∧ t.kind ≠ .error ∧ t.kind = kind ∧ t.text.toList = chars) ↔
      ∃ rest, text = chars ++ rest ∧ Spelled kind chars rest ∧ (kind = .rightParen → 0 < depth)

theorem Turn.follows {depth : Nat} {pos : Position} {text : List Char} {tokens : List Token}
    (turn : Turn depth pos text tokens) : Follows depth text tokens := by
  have unique : ∀ {tokens'}, Turn depth pos text tokens' → tokens = tokens' := fun other =>
    turn.lexes.unique other.lexes
  refine ⟨⟨?_, ?_⟩, ⟨?_, ?_⟩, ?_, fun kind chars => ⟨?_, ?_⟩⟩
  · rintro rfl
    cases turn with
    | ends closed => exact ⟨rfl, closed⟩
  · rintro ⟨rfl, closed⟩
    exact unique (.ends closed)
  · rintro ⟨t, rfl, illegible⟩
    cases turn with
    | objects objects => exact ⟨_, objects⟩
    | token _ spelled => exact absurd illegible spelled.kind_ne_error
  · rintro ⟨why, objects⟩
    exact ⟨_, unique (.objects objects), rfl⟩
  · intro why objects t member
    rw [unique (.objects objects), List.mem_singleton] at member
    rw [member]
    rfl
  · rintro ⟨t, later, rfl, legible, rfl, rfl⟩
    cases turn with
    | objects => exact absurd rfl legible
    | @token _ rest _ _ _ spelled balance =>
        refine ⟨rest, rfl, spelled, fun closes => ?_⟩
        simp [closes] at balance
        omega
  · rintro ⟨rest, rfl, spelled, closes⟩
    obtain ⟨inner, balance⟩ : ∃ inner, depth + (if kind = .leftParen then 1 else 0) =
        inner + if kind = .rightParen then 1 else 0 := by
      by_cases isClosing : kind = .rightParen
      · have some_open := closes isClosing
        exact ⟨depth - 1, by simp [isClosing]; omega⟩
      · exact ⟨_, by rw [if_neg isClosing, Nat.add_zero]⟩
    obtain ⟨later, lexed⟩ := exists_lexes inner (pos.after chars) rest
    exact ⟨_, later, unique (.of_spelled spelled balance lexed), spelled.kind_ne_error, rfl,
      String.toList_ofList⟩

/-! ## Runs -/

/-- A text begins with tokens, each after blanks and spelled before what follows it, and goes on
with the rest. -/
inductive Yields : List Char → List Token → List Char → Prop where
  | nil {text : List Char} : Yields text [] text
  | cons {gap rest last : List Char} {t : Token} {tokens : List Token} :
      (∀ c ∈ gap, Text.isBlank c = true) → Spelled t.kind t.text.toList rest →
      Yields rest tokens last → Yields (gap ++ (t.text.toList ++ rest)) (t :: tokens) last

/-- Legible tokens are spelled one after the other, and the others are those of the rest. -/
theorem Lexes.yields {front after : List Token} {depth : Nat} {pos : Position} {text : List Char}
    (lexed : Lexes depth pos text (front ++ after)) (legible : ∀ t ∈ front, t.kind ≠ .error) :
    ∃ inner place rest, Yields text front rest ∧
      depth + Token.count .leftParen front = inner + Token.count .rightParen front ∧
      Lexes inner place rest after := by
  induction front generalizing depth pos text with
  | nil => exact ⟨depth, pos, text, .nil, rfl, lexed⟩
  | cons t front ih =>
      obtain ⟨first, others⟩ := List.forall_mem_cons.mp legible
      obtain ⟨gap, rest, rfl, blank, _, turn⟩ := lexed.turn
      rw [List.cons_append] at turn
      generalize front ++ after = tokens at turn ih
      cases turn with
      | objects => exact absurd rfl first
      | token _ spelled balance later =>
          obtain ⟨inner, place, last, yields, balanced, rest⟩ := ih later others
          refine ⟨inner, place, last, .cons blank spelled yields, ?_, rest⟩
          simp only [Token.count_cons, Token.count_nil] at balance ⊢
          omega

/-- No beginning of the tokens closes a parenthesis that was not open. -/
theorem Lexes.count_le {depth : Nat} {pos : Position} {text : List Char} {tokens : List Token}
    (lexed : Lexes depth pos text tokens) {front : List Token} (within : front <+: tokens) :
    Token.count .rightParen front ≤ depth + Token.count .leftParen front := by
  induction lexed generalizing front with
  | done => simp [List.prefix_nil.mp within]
  | unclosed | unopened | illegible | strange =>
      rcases List.prefix_cons_iff.mp within with rfl | ⟨tail, rfl, inside⟩
      · simp
      · simp [List.prefix_nil.mp inside, Objection.token]
  | blank _ _ ih => exact ih within
  | opening _ ih | closing _ ih =>
      rcases List.prefix_cons_iff.mp within with rfl | ⟨tail, rfl, inside⟩
      · simp
      · have later := ih inside
        simp only [Token.count_cons, reduceCtorEq, if_false, if_true]
        omega
  | lexeme _ read _ ih =>
      rcases List.prefix_cons_iff.mp within with rfl | ⟨tail, rfl, inside⟩
      · simp
      · obtain ⟨notOpening, notClosing, _⟩ := Class.kind_ne_of_read read
        simp only [Token.count_cons, notOpening, notClosing, if_false]
        exact ih inside

end Lexer

/-- **The lexer reads what the lexical grammar spells.**  No beginning of the tokens of a source
closes more parentheses than it opens.  After any legible tokens the source has been spelled by
them so far, and the tokens that come then follow the grammar. -/
theorem tokenize_follows_grammar (source : String) :
    (∀ front, front <+: tokenize source →
      Token.count .rightParen front ≤ Token.count .leftParen front) ∧
    ∀ front after, tokenize source = front ++ after → (∀ t ∈ front, t.kind ≠ .error) →
      ∃ depth rest, Token.count .leftParen front = depth + Token.count .rightParen front ∧
        Lexer.Yields source.toList front rest ∧
        Lexer.Follows depth (rest.dropWhile Text.isBlank) after := by
  have lexed := Lexer.lexes_tokenize source
  constructor
  · intro front within
    have bound := lexed.count_le within
    rwa [Nat.zero_add] at bound
  · intro front after whole legible
    rw [whole] at lexed
    obtain ⟨depth, place, rest, yields, balanced, later⟩ := lexed.yields legible
    rw [Nat.zero_add] at balanced
    obtain ⟨gap, visible, _, _, dropped, turn⟩ := later.turn
    exact ⟨depth, rest, balanced, yields, dropped ▸ turn.follows⟩

example : (tokenize "+.5 -x 0x").map Token.spelling =
    [(.number, "+.5"), (.identifier, "-x"), (.error, "illegal number")] := by decide

end ColonLisp
