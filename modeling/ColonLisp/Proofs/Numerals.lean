/-
# Proofs.Numerals -- a numeral ends where it ends, whatever stands there

A numeral is taken from the front of a text in pieces: a sign, digits, a point, an exponent,
or the mark of a hexadecimal numeral and its digits.  Each piece takes as much as it can, so
it looks one character ahead.  Two facts are shown for every piece, and then for the whole:

* before a text that does not begin with a character the piece could take, more text
  changes nothing (`read?_append`);
* what the piece takes is taken whole if it stands alone (`read?_alone`).

For the second the pieces must not run into each other: no fraction begins with a digit
(`begins_fraction`), no decimal with a sign (`begins_decimal`), no exponent with a digit
or a point (`begins_exponent`).

`opens_of_read?`: the test with which the lexer recognises numerals holds of every text that
has one at its front.
-/
import ColonLisp.Proofs.Lexing

set_option autoImplicit false

namespace ColonLisp.Token.Numeral

/-! ## Pieces of a numeral -/

/-- Whether a text begins with a character of a class. -/
def begins (cls : Char → Bool) (text : List Char) : Bool := text.head?.any cls

@[simp] theorem begins_nil (cls : Char → Bool) : begins cls [] = false := rfl

@[simp] theorem begins_cons (cls : Char → Bool) (c : Char) (rest : List Char) :
    begins cls (c :: rest) = cls c := rfl

/-- A text that begins with no character of a class begins with none of a smaller one. -/
theorem begins_of_subset {small large : Char → Bool} {text : List Char}
    (subset : ∀ c, small c = true → large c = true) (stops : begins large text = false) :
    begins small text = false := by
  cases text with
  | nil => rfl
  | cons c text => exact Bool.eq_false_iff.mpr fun isSmall => by simp [subset c isSmall] at stops

/-- A character that prolongs a decimal. -/
def isDecimalChar (c : Char) : Bool := c.isDigit || c == '.'

theorem begins_digit {text : List Char} (stops : begins isDecimalChar text = false) :
    begins Char.isDigit text = false :=
  begins_of_subset (fun c digit => by simp [isDecimalChar, digit]) stops

/-- A sign before a numeral or an exponent. -/
def isSign (c : Char) : Bool := c == '+' || c == '-'

theorem run_append_of_begins {cls : Char → Bool} {more : List Char}
    (stops : begins cls more = false) (text : List Char) :
    run cls (text ++ more) = ((run cls text).1, (run cls text).2 ++ more) := by
  induction text with
  | nil =>
      cases more with
      | nil => rfl
      | cons c more =>
          rw [begins_cons] at stops
          simp [run, stops]
  | cons c text ih =>
      simp only [run, Prod.mk.injEq] at ih
      cases taken : cls c with
      | true => simp [run, taken, ih.1, ih.2]
      | false => simp [run, taken]

theorem run_alone (cls : Char → Bool) (text : List Char) :
    run cls (run cls text).1 = ((run cls text).1, []) := by
  induction text with
  | nil => rfl
  | cons c text ih =>
      simp only [run, Prod.mk.injEq] at ih
      cases taken : cls c with
      | true => simp [run, taken, ih.1, ih.2]
      | false => simp [run, taken]

theorem sign_append_of_begins {more : List Char} (stops : begins isSign more = false)
    (text : List Char) : sign (text ++ more) = ((sign text).1, (sign text).2 ++ more) := by
  cases text with
  | nil =>
      cases more with
      | nil => rfl
      | cons c more =>
          have noSign : ¬ (c = '+' ∨ c = '-') := by simpa [isSign] using stops
          simp [sign, noSign]
  | cons c text =>
      by_cases isSign : c = '+' ∨ c = '-'
      · simp [sign, isSign]
      · simp [sign, isSign]

theorem sign_alone (text : List Char) : sign (sign text).1 = ((sign text).1, []) := by
  cases text with
  | nil => rfl
  | cons c text =>
      by_cases isSign : c = '+' ∨ c = '-'
      · simp [sign, isSign]
      · simp [sign, isSign]

theorem fraction_point (rest : List Char) :
    fraction ('.' :: rest) = ('.' :: (run Char.isDigit rest).1, (run Char.isDigit rest).2) := rfl

theorem fraction_of_begins {text : List Char} (noPoint : begins (· == '.') text = false) :
    fraction text = ([], text) := by
  unfold fraction
  split
  · cases noPoint
  · rfl

theorem fraction_append_of_begins {more : List Char} (stops : begins isDecimalChar more = false)
    (text : List Char) :
    fraction (text ++ more) = ((fraction text).1, (fraction text).2 ++ more) := by
  have noPoint : begins (· == '.') more = false :=
    begins_of_subset (fun c point => by simp [isDecimalChar, point]) stops
  cases text with
  | nil => exact fraction_of_begins noPoint
  | cons c text =>
      by_cases point : c = '.'
      · subst point
        rw [List.cons_append, fraction_point, fraction_point,
          run_append_of_begins (begins_digit stops)]
      · have noPoint : ∀ text, begins (· == '.') (c :: text) = false := by
          simpa using point
        rw [List.cons_append, fraction_of_begins (noPoint _), fraction_of_begins (noPoint _)]
        rfl

theorem fraction_alone (text : List Char) :
    fraction (fraction text).1 = ((fraction text).1, []) := by
  cases noPoint : begins (· == '.') text with
  | false =>
      rw [fraction_of_begins noPoint]
      rfl
  | true =>
      cases text with
      | nil => cases noPoint
      | cons c text =>
          cases eq_of_beq noPoint
          rw [fraction_point, fraction_point, run_alone]

/-- The digits before a point are not prolonged by it. -/
theorem begins_fraction (text : List Char) : begins Char.isDigit (fraction text).1 = false := by
  unfold fraction
  split
  · rfl
  · rfl

theorem decimal_append_of_begins {more : List Char} (stops : begins isDecimalChar more = false)
    (text : List Char) :
    decimal (text ++ more) = ((decimal text).1, (decimal text).2 ++ more) := by
  simp only [decimal, run_append_of_begins (begins_digit stops), fraction_append_of_begins stops]

theorem decimal_alone (text : List Char) : decimal (decimal text).1 = ((decimal text).1, []) := by
  simp only [decimal, run_append_of_begins (begins_fraction _), run_alone, List.nil_append,
    fraction_alone]

theorem isSign_of_isDigit {c : Char} (digit : c.isDigit = true) : isSign c = false := by
  refine Bool.eq_false_iff.mpr fun sign => ?_
  simp only [isSign, Bool.or_eq_true, beq_iff_eq] at sign
  rcases sign with rfl | rfl
  · cases digit
  · cases digit

/-- A decimal does not begin with a sign. -/
theorem begins_decimal (text : List Char) : begins isSign (decimal text).1 = false := by
  cases text with
  | nil => rfl
  | cons c text =>
      cases digit : c.isDigit with
      | true => simp [decimal, run, digit, isSign_of_isDigit digit]
      | false =>
          by_cases point : c = '.'
          · subst point
            simp [decimal, run, digit, fraction, isSign]
          · have none : fraction (c :: text) = ([], c :: text) :=
              fraction_of_begins (by simpa using point)
            simp [decimal, run, digit, none]

/-- What prolongs a numeral: a character of a number in any notation, or a sign. -/
def isNumeralChar (c : Char) : Bool := c.isAlphanum || c == '.' || isSign c

theorem exponent_mark {c : Char} (mark : c = 'e' ∨ c = 'E') (rest : List Char) :
    exponent (c :: rest) =
      (c :: ((sign rest).1 ++ (decimal (sign rest).2).1), (decimal (sign rest).2).2) := by
  simp only [exponent, if_pos mark]

theorem exponent_none {c : Char} (noMark : ¬ (c = 'e' ∨ c = 'E')) (rest : List Char) :
    exponent (c :: rest) = ([], c :: rest) := by
  simp only [exponent, if_neg noMark]

theorem begins_decimalChar {text : List Char} (stops : begins isNumeralChar text = false) :
    begins isDecimalChar text = false := by
  refine begins_of_subset (fun c decimal => ?_) stops
  simp only [isDecimalChar, Bool.or_eq_true] at decimal
  rcases decimal with digit | point
  · simp [isNumeralChar, Char.isAlphanum, digit]
  · simp [isNumeralChar, point]

theorem begins_sign {text : List Char} (stops : begins isNumeralChar text = false) :
    begins isSign text = false :=
  begins_of_subset (fun c sign => by simp [isNumeralChar, sign]) stops

theorem exponent_append_of_begins {more : List Char} (stops : begins isNumeralChar more = false)
    (text : List Char) :
    exponent (text ++ more) = ((exponent text).1, (exponent text).2 ++ more) := by
  cases text with
  | nil =>
      cases more with
      | nil => rfl
      | cons c more =>
          refine exponent_none ?_ more
          rintro (rfl | rfl)
          · cases stops
          · cases stops
  | cons c text =>
      by_cases mark : c = 'e' ∨ c = 'E'
      · rw [List.cons_append, exponent_mark mark, exponent_mark mark,
          sign_append_of_begins (begins_sign stops),
          decimal_append_of_begins (begins_decimalChar stops)]
      · rw [List.cons_append, exponent_none mark, exponent_none mark]
        rfl

theorem exponent_alone (text : List Char) :
    exponent (exponent text).1 = ((exponent text).1, []) := by
  cases text with
  | nil => rfl
  | cons c text =>
      by_cases mark : c = 'e' ∨ c = 'E'
      · rw [exponent_mark mark, exponent_mark mark, sign_append_of_begins (begins_decimal _),
          sign_alone, List.nil_append, decimal_alone]
      · rw [exponent_none mark]
        rfl

/-- The decimal before an exponent is not prolonged by it. -/
theorem begins_exponent (text : List Char) :
    begins isDecimalChar (exponent text).1 = false := by
  cases text with
  | nil => rfl
  | cons c text =>
      by_cases mark : c = 'e' ∨ c = 'E'
      · rw [exponent_mark mark]
        rcases mark with rfl | rfl
        · rfl
        · rfl
      · rw [exponent_none mark]
        rfl

/-! ## Whole numerals -/

/-- A mark is two characters, so it is found whatever follows it. -/
theorem hexMark?_mark {text mark rest : List Char} (marked : hexMark? text = some (mark, rest))
    (more : List Char) : hexMark? (mark ++ more) = some (mark, more) := by
  unfold hexMark? at marked
  split at marked
  · split at marked
    · rename_i isMark
      cases marked
      simp [hexMark?, isMark]
    · cases marked
  · cases marked

theorem hexMark?_append {text mark rest : List Char} (marked : hexMark? text = some (mark, rest))
    (more : List Char) : hexMark? (text ++ more) = some (mark, rest ++ more) := by
  rw [← append_of_hexMark? marked, List.append_assoc]
  exact hexMark?_mark marked (rest ++ more)

theorem hexMark?_append_of_none {text more : List Char} (unmarked : hexMark? text = none)
    (stops : begins isNumeralChar more = false) : hexMark? (text ++ more) = none := by
  cases marked : hexMark? (text ++ more) with
  | none => rfl
  | some split =>
      -- The mark is two characters; it cannot begin or end in `more`.
      exfalso
      unfold hexMark? at marked
      split at marked
      · rename_i c rest whole
        split at marked
        · rename_i isMark
          match text, whole with
          | [], whole =>
              rw [List.nil_append] at whole
              rw [whole] at stops
              cases stops
          | [_], whole =>
              cases whole
              rcases isMark with rfl | rfl
              · cases stops
              · cases stops
          | _ :: _ :: _, whole =>
              cases whole
              simp [hexMark?, isMark] at unmarked
        · cases marked
      · cases marked

theorem isAlphanum_of_isHexDigit {c : Char} (hex : isHexDigit c = true) :
    c.isAlphanum = true := by
  simp only [isHexDigit, Bool.or_eq_true, decide_eq_true_eq] at hex
  rcases hex with (digit | ⟨low, high⟩) | ⟨low, high⟩
  · simp [Char.isAlphanum, digit]
  · have lower : c.isLower = true := Lexer.isLower_iff.mpr ⟨low, Nat.le_trans high (by decide)⟩
    have letter : c.isAlpha = true := Bool.or_eq_true_iff.mpr (.inr lower)
    simp [Char.isAlphanum, letter]
  · have upper : c.isUpper = true := Lexer.isUpper_iff.mpr ⟨low, Nat.le_trans high (by decide)⟩
    have letter : c.isAlpha = true := Bool.or_eq_true_iff.mpr (.inl upper)
    simp [Char.isAlphanum, letter]

theorem unsigned?_append {text digits rest more : List Char}
    (found : unsigned? text = some (digits, rest)) (stops : begins isNumeralChar more = false) :
    unsigned? (text ++ more) = some (digits, rest ++ more) := by
  have noHex : begins isHexDigit more = false := by
    refine begins_of_subset (fun c hex => ?_) stops
    simp [isNumeralChar, isAlphanum_of_isHexDigit hex]
  unfold unsigned? at found ⊢
  cases marked : hexMark? text with
  | some split =>
      obtain ⟨mark, after⟩ := split
      rw [marked] at found
      rw [hexMark?_append marked]
      simp only [run_append_of_begins noHex] at found ⊢
      split at found
      · cases found
      · rename_i some_digit
        cases found
        rw [if_neg some_digit]
  | none =>
      rw [marked] at found
      rw [hexMark?_append_of_none marked stops]
      simp only [decimal_append_of_begins (begins_decimalChar stops),
        exponent_append_of_begins stops] at found ⊢
      split at found
      · rename_i some_digit
        cases found
        rw [if_pos some_digit]
      · cases found

theorem unsigned?_alone {text digits rest : List Char}
    (found : unsigned? text = some (digits, rest)) : unsigned? digits = some (digits, []) := by
  have whole := append_of_unsigned? found
  unfold unsigned? at found ⊢
  cases marked : hexMark? text with
  | some split =>
      obtain ⟨mark, after⟩ := split
      rw [marked] at found
      simp only at found
      split at found
      · cases found
      · rename_i some_digit
        cases found
        rw [hexMark?_mark marked]
        simp only [run_alone, if_neg some_digit]
  | none =>
      have unmarked : hexMark? digits = none := by
        cases marked' : hexMark? digits with
        | none => rfl
        | some split =>
            have longer := hexMark?_append marked' rest
            rw [whole, marked] at longer
            cases longer
      rw [marked] at found
      simp only at found
      split at found
      · rename_i some_digit
        cases found
        rw [unmarked]
        simp only [decimal_append_of_begins (begins_exponent _), decimal_alone, List.nil_append,
          exponent_alone, if_pos some_digit]
      · cases found

theorem startsDecimal_of_isDigit {c : Char} (digit : c.isDigit = true) (rest : List Char) :
    startsDecimal (c :: rest) = true := by
  unfold startsDecimal
  split
  · rename_i same
    cases same
    cases digit
  · exact digit

/-- A text from which a numeral without a sign is taken begins as one. -/
theorem startsDecimal_of_unsigned? {text digits rest : List Char}
    (found : unsigned? text = some (digits, rest)) : startsDecimal text = true := by
  simp only [unsigned?] at found
  split at found
  · rename_i mark after marked
    unfold hexMark? at marked
    split at marked
    · rfl
    · cases marked
  · split at found
    · rename_i some_digit
      cases text with
      | nil => cases some_digit
      | cons c text =>
          cases digit : c.isDigit with
          | true => exact startsDecimal_of_isDigit digit text
          | false =>
              by_cases point : c = '.'
              · subst point
                cases text with
                | nil => cases some_digit
                | cons d text =>
                  cases digit' : d.isDigit with
                  | true => exact digit'
                  | false => simp [decimal, run, digit, fraction, digit'] at some_digit
              · have none : fraction (c :: text) = ([], c :: text) :=
                  fraction_of_begins (by simpa using point)
                simp [decimal, run, digit, none] at some_digit
    · cases found

theorem begins_sign_of_startsDecimal {text : List Char} (starts : startsDecimal text = true) :
    begins isSign text = false := by
  unfold startsDecimal at starts
  split at starts
  · rfl
  · cases text with
    | nil => rfl
    | cons c text => exact isSign_of_isDigit starts

theorem read?_append {text numeral rest more : List Char}
    (found : read? text = some (numeral, rest)) (stops : begins isNumeralChar more = false)
    (free : isBlocked more = false) : read? (text ++ more) = some (numeral, rest ++ more) := by
  unfold read? at found ⊢
  simp only [sign_append_of_begins (begins_sign stops)] at found ⊢
  split at found
  · rename_i digits after unsigned
    rw [unsigned?_append unsigned stops]
    split at found
    · cases found
    · rename_i notBlocked
      cases found
      have stillFree : isBlocked (rest ++ more) = false := by
        cases rest with
        | nil => exact free
        | cons c rest => exact Bool.eq_false_iff.mpr notBlocked
      simp [stillFree]
  · cases found

theorem read?_alone {text numeral rest : List Char} (found : read? text = some (numeral, rest)) :
    read? numeral = some (numeral, []) := by
  unfold read? at found ⊢
  simp only at found ⊢
  split at found
  · rename_i digits after unsigned
    split at found
    · cases found
    · cases found
      have noSign := begins_sign_of_startsDecimal
        (startsDecimal_of_unsigned? (unsigned?_alone unsigned))
      rw [sign_append_of_begins noSign, sign_alone, List.nil_append, unsigned?_alone unsigned]
      rfl
  · cases found

/-- A text from which a numeral is taken begins as a numeral does. -/
theorem opens_of_read? {text numeral rest : List Char} (found : read? text = some (numeral, rest)) :
    opens text = true := by
  unfold read? at found
  simp only at found
  split at found
  · rename_i digits after unsigned
    exact startsDecimal_of_unsigned? unsigned
  · cases found

end ColonLisp.Token.Numeral
