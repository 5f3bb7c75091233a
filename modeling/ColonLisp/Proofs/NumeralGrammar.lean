/-
# Proofs.NumeralGrammar -- a numeral is the longest one at the front of a text

`IsNumeral` is the grammar of numerals, said without the lexer: an optional sign, and then a
hexadecimal numeral, or a decimal with a digit and perhaps an exponent.  `IsLongest` says of a
beginning of a text that it is in a class and that every other beginning in the class is a
beginning of it.

`read?_longest`: a text that begins as a numeral does has a longest numeral at its front, and the
lexer takes it, unless it is followed by a character that may not follow a numeral.

The lexer takes a numeral piece by piece.  Each piece is the longest of its class
(`run_longest`, `decimal_longest`), and where one piece ends the next cannot have begun before:
a character outside the class of the first piece settles where it ends
(`IsLongest.eq_of_stops`).  The mark of a hexadecimal numeral without digits is the only thing
that the lexer takes too far; then the longest numeral is the zero before the mark, and the mark
is a letter.
-/
import ColonLisp.Proofs.Names
import ColonLisp.Proofs.Numerals

set_option autoImplicit false

namespace ColonLisp.Token.Numeral

/-! ## The grammar -/

/-- Digits with at most one point among, before or after them; there may be none. -/
inductive IsDecimal : List Char → Prop where
  | whole {digits : List Char} : (∀ c ∈ digits, c.isDigit = true) → IsDecimal digits
  | point {whole part : List Char} : (∀ c ∈ whole, c.isDigit = true) →
      (∀ c ∈ part, c.isDigit = true) → IsDecimal (whole ++ '.' :: part)

/-- A member of a class, perhaps after a sign. -/
inductive Signed (cls : List Char → Prop) : List Char → Prop where
  | bare {body : List Char} : cls body → Signed cls body
  | sign {c : Char} {body : List Char} : c = '+' ∨ c = '-' → cls body → Signed cls (c :: body)

/-- Nothing, or a mark and a decimal with perhaps a sign. -/
inductive IsExponent : List Char → Prop where
  | none : IsExponent []
  | power {mark : Char} {digits : List Char} : mark = 'e' ∨ mark = 'E' → Signed IsDecimal digits →
      IsExponent (mark :: digits)

/-- A numeral without its sign. -/
inductive IsUnsigned : List Char → Prop where
  | hex {mark : Char} {digits : List Char} : mark = 'x' ∨ mark = 'X' → digits ≠ [] →
      (∀ c ∈ digits, isHexDigit c = true) → IsUnsigned ('0' :: mark :: digits)
  | decimal {mantissa exponent : List Char} : IsDecimal mantissa →
      mantissa.any Char.isDigit = true → IsExponent exponent → IsUnsigned (mantissa ++ exponent)

/-- A numeral. -/
def IsNumeral : List Char → Prop := Signed IsUnsigned

/-- A text is split into its longest beginning of a class and the rest. -/
structure IsLongest (cls : List Char → Prop) (text taken rest : List Char) : Prop where
  whole : taken ++ rest = text
  member : cls taken
  longest : ∀ other, other <+: text → cls other → other <+: taken

theorem IsLongest.unique {cls : List Char → Prop} {text taken rest taken' rest' : List Char}
    (first : IsLongest cls text taken rest) (second : IsLongest cls text taken' rest') :
    taken = taken' ∧ rest = rest' := by
  have within := second.longest taken ⟨rest, first.whole⟩ first.member
  have within' := first.longest taken' ⟨rest', second.whole⟩ second.member
  have same : taken = taken' := within.eq_of_length_le within'.length_le
  subst same
  exact ⟨rfl, List.append_cancel_left (first.whole.trans second.whole.symm)⟩

/-- If a longer beginning goes on with a character that the longest piece cannot have, then it
goes on where that piece ends. -/
theorem IsLongest.eq_of_stops {cls : List Char → Prop} {text taken rest front more : List Char}
    {c : Char} (longest : IsLongest cls text taken rest) (member : cls front)
    (stops : c ∉ taken) (longer : front ++ c :: more <+: text) :
    front = taken ∧ c :: more <+: rest := by
  have within : front <+: taken :=
    longest.longest front ((List.prefix_append _ _).trans longer) member
  obtain ⟨left, rfl⟩ := within
  rw [← longest.whole, List.append_assoc, List.prefix_append_right_inj] at longer
  cases left with
  | nil => exact ⟨(List.append_nil front).symm, longer⟩
  | cons d left =>
      have same := (List.cons_prefix_cons.mp longer).1
      exact absurd (by simp [same]) stops

/-! ## Pieces -/

theorem run_longest (cls : Char → Bool) (text : List Char) :
    IsLongest (fun chars => ∀ c ∈ chars, cls c = true) text (run cls text).1 (run cls text).2 where
  whole := run_append cls text
  member := List.all_eq_true.mp List.all_takeWhile
  longest := by
    rintro other ⟨more, rfl⟩ all
    rw [run, List.takeWhile_append_of_pos all]
    exact List.prefix_append _ _

theorem isDecimal_decimal (text : List Char) : IsDecimal (decimal text).1 := by
  have digits := (run_longest Char.isDigit text).member
  simp only [decimal, fraction]
  split
  · exact .point digits (run_longest Char.isDigit _).member
  · rw [List.append_nil]
    exact .whole digits

theorem decimal_longest (text : List Char) :
    IsLongest IsDecimal text (decimal text).1 (decimal text).2 where
  whole := decimal_append text
  member := isDecimal_decimal text
  longest := by
    intro other within isDecimal
    have whole := run_longest Char.isDigit text
    cases isDecimal with
    | whole digits => exact (whole.longest other within digits).trans (List.prefix_append _ _)
    | @point front part digits digits' =>
        have noPoint : '.' ∉ (run Char.isDigit text).1 := fun member => by
          cases whole.member _ member
        obtain ⟨rfl, more⟩ := whole.eq_of_stops digits noPoint within
        simp only [decimal]
        rw [List.prefix_append_right_inj]
        cases left : (run Char.isDigit text).2 with
        | nil => simp [left] at more
        | cons c rest =>
            rw [left, List.cons_prefix_cons] at more
            obtain ⟨rfl, more⟩ := more
            rw [fraction_point, List.cons_prefix_cons]
            exact ⟨rfl, (run_longest Char.isDigit rest).longest part more digits'⟩

theorem isDecimalChar_of_mem {chars : List Char} (isDecimal : IsDecimal chars) :
    ∀ c ∈ chars, isDecimalChar c = true := by
  cases isDecimal with
  | whole digits => exact fun c member => by simp [isDecimalChar, digits c member]
  | point digits digits' =>
      intro c member
      rcases List.mem_append.mp member with front | back
      · simp [isDecimalChar, digits c front]
      · rcases List.mem_cons.mp back with rfl | later
        · rfl
        · simp [isDecimalChar, digits' c later]

theorem begins_of_isDecimal {chars : List Char} (isDecimal : IsDecimal chars) :
    begins isSign chars = false := by
  cases chars with
  | nil => rfl
  | cons c chars =>
      have first := isDecimalChar_of_mem isDecimal c List.mem_cons_self
      simp only [isDecimalChar, Bool.or_eq_true, beq_iff_eq] at first
      rcases first with digit | rfl
      · exact isSign_of_isDigit digit
      · rfl

section Signed

variable {cls : List Char → Prop} {text taken rest : List Char}

theorem IsLongest.bare (noSign : begins isSign text = false)
    (longest : IsLongest cls text taken rest) : IsLongest (Signed cls) text taken rest := by
  refine ⟨longest.whole, .bare longest.member, fun other within member => ?_⟩
  cases member with
  | bare member => exact longest.longest other within member
  | @sign c body isSign member =>
      obtain ⟨more, rfl⟩ := within
      rcases isSign with rfl | rfl
      · cases noSign
      · cases noSign

theorem IsLongest.afterSign {c : Char} (isSign : c = '+' ∨ c = '-')
    (unsigned : ∀ {chars}, cls chars → begins Numeral.isSign chars = false)
    (longest : IsLongest cls text taken rest) :
    IsLongest (Signed cls) (c :: text) (c :: taken) rest := by
  refine ⟨?_, .sign isSign longest.member, fun other within member => ?_⟩
  · rw [List.cons_append, longest.whole]
  · cases member with
    | bare member =>
        -- Without a sign it can only be empty.
        rcases List.prefix_cons_iff.mp within with rfl | ⟨tail, rfl, _⟩
        · exact List.nil_prefix
        · have noSign := unsigned member
          rcases isSign with rfl | rfl
          · cases noSign
          · cases noSign
    | sign _ member =>
        obtain ⟨rfl, inside⟩ := List.cons_prefix_cons.mp within
        exact List.cons_prefix_cons.mpr ⟨rfl, longest.longest _ inside member⟩

/-- A sign is taken before the longest member of a class in which none begins with a sign. -/
theorem IsLongest.signed (unsigned : ∀ {chars}, cls chars → begins isSign chars = false)
    (longest : IsLongest cls (sign text).2 taken rest) :
    IsLongest (Signed cls) text ((sign text).1 ++ taken) rest := by
  cases text with
  | nil => exact longest.bare rfl
  | cons c tail =>
      by_cases isSign : c = '+' ∨ c = '-'
      · have split : sign (c :: tail) = ([c], tail) := if_pos isSign
        rw [split] at longest ⊢
        exact longest.afterSign isSign unsigned
      · have split : sign (c :: tail) = ([], c :: tail) := if_neg isSign
        rw [split] at longest ⊢
        refine longest.bare (Bool.eq_false_iff.mpr fun begins => isSign ?_)
        simpa [Numeral.isSign] using begins

end Signed

/-! ## Numerals without their sign -/

theorem not_mem_of_isDecimal {chars : List Char} (isDecimal : IsDecimal chars) {c : Char}
    (other : isDecimalChar c = false) : c ∉ chars := by
  intro member
  rw [isDecimalChar_of_mem isDecimal c member] at other
  cases other

theorem isDecimalChar_of_mark {mark : Char} (isMark : mark = 'e' ∨ mark = 'E') :
    isDecimalChar mark = false := by
  rcases isMark with rfl | rfl
  · rfl
  · rfl

theorem exponent_longest (text : List Char) :
    IsLongest IsExponent text (exponent text).1 (exponent text).2 := by
  refine ⟨exponent_append text, ?_, fun other within isExponent => ?_⟩
  · cases text with
    | nil => exact .none
    | cons c rest =>
        by_cases isMark : c = 'e' ∨ c = 'E'
        · rw [exponent_mark isMark]
          exact .power isMark ((decimal_longest _).signed begins_of_isDecimal).member
        · rw [exponent_none isMark]
          exact .none
  · cases isExponent with
    | none => exact List.nil_prefix
    | @power mark digits isMark isSigned =>
        obtain ⟨more, rfl⟩ := within
        rw [List.cons_append, exponent_mark isMark, List.cons_prefix_cons]
        exact ⟨rfl, ((decimal_longest _).signed begins_of_isDecimal).longest _
          (List.prefix_append _ _) isSigned⟩

/-- A decimal with a digit, and the exponent after it. -/
theorem decimal_exponent_longest {text : List Char} (unmarked : hexMark? text = none)
    (someDigit : (decimal text).1.any Char.isDigit = true) :
    IsLongest IsUnsigned text ((decimal text).1 ++ (exponent (decimal text).2).1)
      (exponent (decimal text).2).2 := by
  have mantissa := decimal_longest text
  have power := exponent_longest (decimal text).2
  refine ⟨?_, .decimal mantissa.member someDigit power.member, fun other within isUnsigned => ?_⟩
  · rw [List.append_assoc, power.whole, mantissa.whole]
  · cases isUnsigned with
    | hex isMark =>
        obtain ⟨more, rfl⟩ := within
        simp [hexMark?, isMark] at unmarked
    | @decimal front _ isDecimal _ isExponent =>
        cases isExponent with
        | none =>
            rw [List.append_nil] at within ⊢
            exact (mantissa.longest front within isDecimal).trans (List.prefix_append _ _)
        | @power mark digits isMark isSigned =>
            -- The mark stands where the digits before it end.
            have stops := not_mem_of_isDecimal mantissa.member (isDecimalChar_of_mark isMark)
            obtain ⟨rfl, inside⟩ := mantissa.eq_of_stops isDecimal stops within
            rw [List.prefix_append_right_inj]
            exact power.longest _ inside (.power isMark isSigned)

/-- The numerals at the mark of a hexadecimal one: the zero before it, and those with digits. -/
theorem IsUnsigned.of_hexMark {chars rest : List Char} {mark : Char}
    (isMark : mark = 'x' ∨ mark = 'X') (isUnsigned : IsUnsigned chars)
    (within : chars <+: '0' :: mark :: rest) :
    chars = ['0'] ∨ ∃ digits, chars = '0' :: mark :: digits ∧ digits ≠ [] ∧
      digits <+: (run isHexDigit rest).1 := by
  cases isUnsigned with
  | @hex other digits _ someDigit all =>
      obtain ⟨_, inside⟩ := List.cons_prefix_cons.mp within
      obtain ⟨rfl, digitsInside⟩ := List.cons_prefix_cons.mp inside
      exact .inr ⟨digits, rfl, someDigit, (run_longest isHexDigit rest).longest _ digitsInside all⟩
  | @decimal mantissa exponent isDecimal someDigit isExponent =>
      have noMark : mark ∉ mantissa :=
        not_mem_of_isDecimal isDecimal (by rcases isMark with rfl | rfl <;> rfl)
      rcases List.prefix_cons_iff.mp ((List.prefix_append _ _).trans within) with
        rfl | ⟨tail, rfl, inside⟩
      · cases someDigit
      rcases List.prefix_cons_iff.mp inside with rfl | ⟨tail, rfl, _⟩
      · cases isExponent with
        | none => exact .inl rfl
        | power isOther =>
            obtain ⟨_, inside⟩ := List.cons_prefix_cons.mp within
            obtain ⟨rfl, _⟩ := List.cons_prefix_cons.mp inside
            rcases isMark with rfl | rfl
            · simp at isOther
            · simp at isOther
      · simp at noMark

theorem IsUnsigned.zero : IsUnsigned ['0'] := by
  have digit : IsDecimal ['0'] := .whole (by simp)
  exact .decimal digit rfl .none

/-- What is taken of a text, if anything, is its longest beginning of a class; nothing is taken
only if what follows that beginning may not follow a numeral. -/
def TakesLongest (cls : List Char → Prop) (text : List Char) (taken : Option Split) : Prop :=
  ∃ front rest, IsLongest cls text front rest ∧
    (taken = some (front, rest) ∨ taken = none ∧ isBlocked rest = true)

theorem unsigned?_hexMark {mark : Char} (isMark : mark = 'x' ∨ mark = 'X') (rest : List Char) :
    TakesLongest IsUnsigned ('0' :: mark :: rest) (unsigned? ('0' :: mark :: rest)) := by
  have digits := run_longest isHexDigit rest
  have read : unsigned? ('0' :: mark :: rest) =
      if (run isHexDigit rest).1.isEmpty then none
      else some ('0' :: mark :: (run isHexDigit rest).1, (run isHexDigit rest).2) := by
    simp [unsigned?, hexMark?, isMark]
  by_cases empty : (run isHexDigit rest).1 = []
  · -- The mark is left, and it is a letter.
    refine ⟨['0'], mark :: rest, ⟨rfl, .zero, fun other within isUnsigned => ?_⟩, .inr ⟨?_, ?_⟩⟩
    · rcases isUnsigned.of_hexMark isMark within with rfl | ⟨found, rfl, someDigit, inside⟩
      · exact List.prefix_rfl
      · rw [empty, List.prefix_nil] at inside
        exact absurd inside someDigit
    · rw [read, empty]
      rfl
    · rcases isMark with rfl | rfl
      · rfl
      · rfl
  · refine ⟨'0' :: mark :: (run isHexDigit rest).1, (run isHexDigit rest).2, ⟨?_, ?_, ?_⟩, .inl ?_⟩
    · rw [List.cons_append, List.cons_append, digits.whole]
    · exact .hex isMark empty digits.member
    · intro other within isUnsigned
      rcases isUnsigned.of_hexMark isMark within with rfl | ⟨found, rfl, _, inside⟩
      · simp
      · simpa using inside
    · rw [read, if_neg (by simpa using empty)]

theorem any_isDigit_of_startsDecimal {text : List Char} (starts : startsDecimal text = true) :
    (decimal text).1.any Char.isDigit = true := by
  unfold startsDecimal at starts
  split at starts
  · rename_i rest
    cases rest with
    | nil => cases starts
    | cons d rest =>
        have digit : d.isDigit = true := starts
        simp [decimal, run, fraction, digit]
  · cases text with
    | nil => cases starts
    | cons c rest =>
        have digit : c.isDigit = true := starts
        simp [decimal, run, digit]

theorem unsigned?_longest {text : List Char} (starts : startsDecimal text = true) :
    TakesLongest IsUnsigned text (unsigned? text) := by
  cases marked : hexMark? text with
  | none =>
      have someDigit := any_isDigit_of_startsDecimal starts
      refine ⟨_, _, decimal_exponent_longest marked someDigit, .inl ?_⟩
      simp [unsigned?, marked, someDigit]
  | some split =>
      unfold hexMark? at marked
      split at marked
      · split at marked
        · rename_i isMark
          exact unsigned?_hexMark isMark _
        · cases marked
      · cases marked

/-! ## Numerals -/

theorem startsDecimal_of_isUnsigned {chars : List Char} (isUnsigned : IsUnsigned chars) :
    startsDecimal chars = true := by
  cases isUnsigned with
  | hex => rfl
  | @decimal mantissa exponent isDecimal someDigit _ =>
      refine Lexer.startsDecimal_append exponent ?_
      cases isDecimal with
      | whole digits =>
          cases mantissa with
          | nil => cases someDigit
          | cons c tail => exact startsDecimal_of_isDigit (digits c List.mem_cons_self) tail
      | @point whole part digits digits' =>
          cases whole with
          | nil =>
              cases part with
              | nil => cases someDigit
              | cons d part => exact digits' d List.mem_cons_self
          | cons c tail => exact startsDecimal_of_isDigit (digits c List.mem_cons_self) _

theorem begins_of_isUnsigned {chars : List Char} (isUnsigned : IsUnsigned chars) :
    begins isSign chars = false :=
  begins_sign_of_startsDecimal (startsDecimal_of_isUnsigned isUnsigned)

/-- **The lexer takes the longest numeral** from a text that begins as one does, unless the
character after it may not follow a numeral. -/
theorem read?_longest {text : List Char} (opens : opens text = true) :
    ∃ numeral rest, IsLongest IsNumeral text numeral rest ∧
      read? text = if isBlocked rest then none else some (numeral, rest) := by
  obtain ⟨front, rest, longest, taken | ⟨refused, blocked⟩⟩ := unsigned?_longest opens
  · refine ⟨_, rest, longest.signed begins_of_isUnsigned, ?_⟩
    simp [read?, taken]
  · refine ⟨_, rest, longest.signed begins_of_isUnsigned, ?_⟩
    simp [read?, refused, blocked]

theorem opens_of_isNumeral {numeral : List Char} (isNumeral : IsNumeral numeral)
    (more : List Char) : opens (numeral ++ more) = true := by
  cases isNumeral with
  | bare isUnsigned =>
      have starts := Lexer.startsDecimal_append more (startsDecimal_of_isUnsigned isUnsigned)
      have bare := sign_append_of_begins (begins_sign_of_startsDecimal starts) []
      rw [List.nil_append] at bare
      rw [opens, bare]
      exact starts
  | @sign c body isSign isUnsigned =>
      have signed : sign (c :: body ++ more) = ([c], body ++ more) := if_pos isSign
      rw [opens, signed]
      exact Lexer.startsDecimal_append more (startsDecimal_of_isUnsigned isUnsigned)

/-- Whether a numeral stands at the front of a text. -/
def BeginsNumeral (text : List Char) : Prop := ∃ numeral, IsNumeral numeral ∧ numeral <+: text

/-- The test with which the lexer recognises numerals is exact. -/
theorem opens_iff {text : List Char} : opens text = true ↔ BeginsNumeral text := by
  constructor
  · intro opens
    obtain ⟨numeral, rest, longest, _⟩ := read?_longest opens
    exact ⟨numeral, longest.member, rest, longest.whole⟩
  · rintro ⟨numeral, isNumeral, more, rfl⟩
    exact opens_of_isNumeral isNumeral more

end ColonLisp.Token.Numeral
