/-
# Token.Numeral -- the longest numeral at the front of a text

A numeral is an optional sign and then one of

* `0x` or `0X` and one or more hexadecimal digits;
* a decimal with at least one digit, and optionally an exponent: `e` or `E`, an
  optional sign and a decimal, which here may be empty.

A decimal is digits with at most one point among, before or after them.

Each reader below splits a text into what it takes from the front and what it
leaves, and takes as much as it can; `read?` refuses a text whose numeral has no
digit, or is followed by a letter, a digit, an underscore or a point.  No reader loses
or changes a character (`append_of_read?`), and a numeral that is read has at least one
(`ne_nil_of_read?`).
-/
import ColonLisp.Text.Alphanumeric

set_option autoImplicit false

namespace ColonLisp.Token.Numeral

/-- What was taken from the front of a text, and what is left of it. -/
abbrev Split := List Char × List Char

/-! ## Pieces -/

/-- A character of `0`-`9`, `a`-`f`, `A`-`F`. -/
def isHexDigit (c : Char) : Bool :=
  c.isDigit || decide ('a' ≤ c ∧ c ≤ 'f') || decide ('A' ≤ c ∧ c ≤ 'F')

/-- Takes the leading characters of a class. -/
def run (cls : Char → Bool) (text : List Char) : Split :=
  (text.takeWhile cls, text.dropWhile cls)

/-- Takes an optional sign. -/
def sign : List Char → Split
  | [] => ([], [])
  | c :: rest => if c = '+' ∨ c = '-' then ([c], rest) else ([], c :: rest)

/-- Takes an optional point and the digits after it. -/
def fraction : List Char → Split
  | '.' :: rest => ('.' :: (run Char.isDigit rest).1, (run Char.isDigit rest).2)
  | text => ([], text)

/-- Takes digits with at most one point. -/
def decimal (text : List Char) : Split :=
  let whole := run Char.isDigit text
  let part := fraction whole.2
  (whole.1 ++ part.1, part.2)

/-- Takes an optional exponent: its mark, a sign and a decimal that may be empty. -/
def exponent : List Char → Split
  | [] => ([], [])
  | c :: rest =>
      if c = 'e' ∨ c = 'E' then
        let signed := sign rest
        let digits := decimal signed.2
        (c :: (signed.1 ++ digits.1), digits.2)
      else ([], c :: rest)

/-- Takes the mark of a hexadecimal numeral. -/
def hexMark? : List Char → Option Split
  | '0' :: c :: rest => if c = 'x' ∨ c = 'X' then some (['0', c], rest) else none
  | _ => none

/-! ## Whole numerals -/

/-- The longest numeral without a sign; `none` if it has no digit. -/
def unsigned? (text : List Char) : Option Split :=
  match hexMark? text with
  | some (mark, rest) =>
      let digits := run isHexDigit rest
      if digits.1.isEmpty then none else some (mark ++ digits.1, digits.2)
  | none =>
      let digits := decimal text
      if digits.1.any Char.isDigit then
        let power := exponent digits.2
        some (digits.1 ++ power.1, power.2)
      else none

/-- Whether a text starts with a character that may not follow a numeral. -/
def isBlocked : List Char → Bool
  | [] => false
  | c :: _ => Text.isAlphanumeric c || c == '_' || c == '.'

/-- The numeral at the front of a text and the rest of the text; `none` if there is
no digit or the rest begins with a character that may not follow a numeral. -/
def read? (text : List Char) : Option Split :=
  let signed := sign text
  match unsigned? signed.2 with
  | some (digits, rest) => if isBlocked rest then none else some (signed.1 ++ digits, rest)
  | none => none

/-! ## Nothing is lost -/

theorem run_append (cls : Char → Bool) (text : List Char) :
    (run cls text).1 ++ (run cls text).2 = text := List.takeWhile_append_dropWhile

theorem sign_append (text : List Char) : (sign text).1 ++ (sign text).2 = text := by
  cases text with
  | nil => rfl
  | cons c rest =>
      simp only [sign]
      split <;> rfl

theorem fraction_append (text : List Char) : (fraction text).1 ++ (fraction text).2 = text := by
  unfold fraction
  split
  · exact congrArg _ (run_append Char.isDigit _)
  · rfl

theorem decimal_append (text : List Char) : (decimal text).1 ++ (decimal text).2 = text := by
  simp only [decimal, List.append_assoc, fraction_append, run_append]

theorem exponent_append (text : List Char) : (exponent text).1 ++ (exponent text).2 = text := by
  cases text with
  | nil => rfl
  | cons c rest =>
      simp only [exponent]
      split
      · simp only [List.cons_append, List.append_assoc, decimal_append, sign_append]
      · rfl

theorem append_of_hexMark? {text mark rest : List Char}
    (found : hexMark? text = some (mark, rest)) : mark ++ rest = text := by
  unfold hexMark? at found
  split at found
  · split at found <;> cases found
    rfl
  · cases found

theorem append_of_unsigned? {text digits rest : List Char}
    (found : unsigned? text = some (digits, rest)) : digits ++ rest = text := by
  simp only [unsigned?] at found
  split at found
  · rename_i mark after marked
    split at found
    · cases found
    · cases found
      rw [List.append_assoc, run_append, append_of_hexMark? marked]
  · split at found
    · cases found
      rw [List.append_assoc, exponent_append, decimal_append]
    · cases found

/-- A numeral and what follows it are the text. -/
theorem append_of_read? {text numeral rest : List Char}
    (found : read? text = some (numeral, rest)) : numeral ++ rest = text := by
  simp only [read?] at found
  split at found
  · rename_i digits after unsigned
    split at found
    · cases found
    · cases found
      rw [List.append_assoc, append_of_unsigned? unsigned, sign_append]
  · cases found

theorem ne_nil_of_unsigned? {text digits rest : List Char}
    (found : unsigned? text = some (digits, rest)) : digits ≠ [] := by
  simp only [unsigned?] at found
  split at found
  · split at found
    · cases found
    · rename_i some_digit
      cases found
      intro empty
      exact some_digit (by simp [(List.append_eq_nil_iff.mp empty).2])
  · split at found
    · rename_i some_digit
      cases found
      intro empty
      simp [(List.append_eq_nil_iff.mp empty).1] at some_digit
    · cases found

/-- A numeral has a character. -/
theorem ne_nil_of_read? {text numeral rest : List Char}
    (found : read? text = some (numeral, rest)) : numeral ≠ [] := by
  simp only [read?] at found
  split at found
  · rename_i digits after unsigned
    split at found
    · cases found
    · cases found
      intro empty
      exact ne_nil_of_unsigned? unsigned (List.append_eq_nil_iff.mp empty).2
  · cases found

/-! ## Where a numeral begins -/

/-- Whether a text starts with a digit. -/
def startsWithDigit : List Char → Bool
  | [] => false
  | c :: _ => c.isDigit

/-- Whether a text starts with a digit, perhaps after a point. -/
def startsDecimal : List Char → Bool
  | '.' :: rest => startsWithDigit rest
  | text => startsWithDigit text

/-- Whether a text starts as a numeral does: with a digit, perhaps after a point, and
perhaps after a sign. -/
def opens (text : List Char) : Bool := startsDecimal (sign text).2

end ColonLisp.Token.Numeral
