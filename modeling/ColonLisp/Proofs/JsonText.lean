/-
# Proofs.JsonText -- a JSON value is read back from its text

Reading undoes writing on two levels.

* Characters: the escape of a character is one piece of a string, and stands for that
  character alone (`exists_piece`), so a quoted text is read back (`text?_quote`).
* Values: a layout writes nothing but blanks between the parts of a value (`Layout.Airy`), and
  what stands after a value cannot prolong it (`endsValue`), so a value is taken from the front
  of any text that begins with it (`Regular.taken`).  The induction is on the value; at every
  step the fuel exceeds twice the length of what is still to be taken.

A value is `Regular` if it has only numbers that are naturals, and no object in it has a key
twice.  Others are not read back as they are: a later member with the same key replaces the
earlier one.
-/
import ColonLisp.Json.Reader
import ColonLisp.Json.Writer

set_option autoImplicit false

namespace ColonLisp

namespace Json

/-! ## Strings -/

/-- The three shapes of an escaped character: by a letter, by its code, or not at all. -/
theorem escape_cases (c : Char) :
    (∃ letter, escape c = ['\\', letter] ∧ letter ≠ 'u' ∧ unescape? letter = some c) ∨
      (c.toNat < 0x20 ∧
        escape c = ['\\', 'u', '0', '0', hexDigit (c.toNat / 16), hexDigit (c.toNat % 16)]) ∨
      ((c ≠ '"' ∧ c ≠ '\\' ∧ ¬ c.toNat < 0x20) ∧ escape c = [c]) := by
  have eq_ofNat : ∀ {code : Nat}, c.toNat = code → c = Char.ofNat code := by
    rintro _ rfl
    exact (Char.ofNat_toNat c).symm
  unfold escape
  split
  · exact .inl ⟨'"', rfl, by decide, by simp_all [unescape?]⟩
  split
  · exact .inl ⟨'\\', rfl, by decide, by simp_all [unescape?]⟩
  split
  · exact .inl ⟨'n', rfl, by decide, by simp_all [unescape?]⟩
  split
  · exact .inl ⟨'r', rfl, by decide, by simp_all [unescape?]⟩
  split
  · exact .inl ⟨'t', rfl, by decide, by simp_all [unescape?]⟩
  split
  · rename_i code
    exact .inl ⟨'b', rfl, by decide, by rw [eq_ofNat code]; rfl⟩
  split
  · rename_i code
    exact .inl ⟨'f', rfl, by decide, by rw [eq_ofNat code]; rfl⟩
  split
  · rename_i control
    exact .inr (.inl ⟨control, rfl⟩)
  · rename_i quote backslash _ _ _ _ _ control
    exact .inr (.inr ⟨⟨quote, backslash, control⟩, rfl⟩)

theorem hexValue?_hexDigit {n : Nat} (small : n < 16) : hexValue? (hexDigit n) = some n := by
  revert n
  decide

/-- The escape of a control character has its code. -/
theorem unit?_control {c : Char} (control : c.toNat < 0x20) :
    unit? '0' '0' (hexDigit (c.toNat / 16)) (hexDigit (c.toNat % 16)) = some c.toNat := by
  have high := hexValue?_hexDigit (show c.toNat / 16 < 16 by omega)
  have low := hexValue?_hexDigit (show c.toNat % 16 < 16 by omega)
  have zero : hexValue? '0' = some 0 := rfl
  have whole : 4096 * 0 + 256 * 0 + 16 * (c.toNat / 16) + c.toNat % 16 = c.toNat := by omega
  simp only [unit?, zero, high, low, Option.bind_eq_bind, Option.bind_some, Option.pure_def, whole]

/-- The escape of a character is one piece, which stands for the character alone. -/
theorem exists_piece (c : Char) :
    ∃ piece, (∀ rest, pieces? (escape c ++ rest) =
        (pieces? rest).map fun (pieces, after) => (piece :: pieces, after)) ∧
      ∀ pieces, join? (piece :: pieces) = (join? pieces).map (c :: ·) := by
  rcases escape_cases c with
    ⟨letter, shape, notCode, stands⟩ | ⟨control, shape⟩ | ⟨⟨quote, backslash, plain⟩, shape⟩
  · refine ⟨.char c, fun rest => ?_, fun pieces => rfl⟩
    rw [shape, List.cons_append, List.singleton_append, pieces?, stands]
    · cases pieces? rest <;> rfl
    · exact fun _ _ _ _ _ isCode _ => notCode isCode
  · refine ⟨.unit c.toNat, fun rest => ?_, fun pieces => ?_⟩
    · rw [shape]
      simp only [List.cons_append, List.nil_append, pieces?, unit?_control control,
        Option.bind_eq_bind, Option.bind_some]
      cases pieces? rest <;> rfl
    · have notHigh : isHigh c.toNat = false := by
        simp only [isHigh, Bool.and_eq_false_iff, decide_eq_false_iff_not]
        omega
      have notLow : isLow c.toNat = false := by
        simp only [isLow, Bool.and_eq_false_iff, decide_eq_false_iff_not]
        omega
      rw [join?.eq_def]
      simp only [notHigh, notLow, Char.ofNat_toNat, Bool.false_eq_true, if_false]
  · refine ⟨.char c, fun rest => ?_, fun pieces => rfl⟩
    rw [shape, List.singleton_append, pieces?]
    · rw [if_neg plain]
      cases pieces? rest <;> rfl
    · exact quote
    · exact fun _ _ _ _ _ isEscape _ => backslash isEscape
    · exact fun _ _ isEscape _ => backslash isEscape

/-- A quoted text is read back, whatever stands after it. -/
theorem text?_quote (text : String) (rest : List Char) :
    text? (text.toList.flatMap escape ++ '"' :: rest) = some (text, rest) := by
  have pieces : ∀ chars : List Char, ∃ pieces,
      pieces? (chars.flatMap escape ++ '"' :: rest) = some (pieces, rest) ∧
        join? pieces = some chars := by
    intro chars
    induction chars with
    | nil => exact ⟨[], rfl, rfl⟩
    | cons c chars ih =>
        obtain ⟨pieces, found, joined⟩ := ih
        obtain ⟨piece, one, alone⟩ := exists_piece c
        refine ⟨piece :: pieces, ?_, ?_⟩
        · rw [List.flatMap_cons, List.append_assoc, one, found]
          rfl
        · rw [alone, joined]
          rfl
  obtain ⟨pieces, found, joined⟩ := pieces text.toList
  simp only [text?, found, joined, Option.bind_eq_bind, Option.bind_some, Option.pure_def,
    String.ofList_toList]

theorem quote_append (text : String) (rest : List Char) :
    quote text ++ rest = '"' :: (text.toList.flatMap escape ++ '"' :: rest) := by
  simp [quote]

/-! ## Numbers -/

/-- Whether a text cannot prolong the value that stands before it. -/
def endsValue : List Char → Bool
  | [] => true
  | c :: _ => isSpace c || c == ',' || c == ']' || c == '\x7d'

theorem of_endsValue {c : Char} {rest : List Char} (ends : endsValue (c :: rest) = true) :
    c.isDigit = false ∧ c ≠ '.' ∧ ¬ (c = 'e' ∨ c = 'E') := by
  simp only [endsValue, isSpace, Bool.or_eq_true, beq_iff_eq] at ends
  rcases ends with (((((rfl | rfl) | rfl) | rfl) | rfl) | rfl) | rfl
  all_goals decide

theorem digits?_append {digits rest : List Char} (some_digit : digits ≠ [])
    (all : ∀ c ∈ digits, c.isDigit = true) (ends : endsValue rest = true) :
    digits? (digits ++ rest) = some (digits, rest) := by
  have taken : (digits ++ rest).takeWhile Char.isDigit = digits := by
    rw [List.takeWhile_append_of_pos all]
    cases rest with
    | nil => simp
    | cons c rest => simp [(of_endsValue ends).1]
  have left : (digits ++ rest).dropWhile Char.isDigit = rest := by
    rw [List.dropWhile_append_of_pos all]
    cases rest with
    | nil => rfl
    | cons c rest => simp [(of_endsValue ends).1]
  simp [digits?, taken, left, some_digit]

theorem fraction?_of_endsValue {rest : List Char} (ends : endsValue rest = true) :
    fraction? rest = some ([], rest) := by
  unfold fraction?
  split
  · exact absurd rfl (of_endsValue ends).2.1
  · rfl

theorem exponent?_of_endsValue {rest : List Char} (ends : endsValue rest = true) :
    exponent? rest = some ([], rest) := by
  cases rest with
  | nil => rfl
  | cons c rest => simp only [exponent?, if_neg (of_endsValue ends).2.2]

theorem isDigit_of_mem {n : Nat} {c : Char} (member : c ∈ Nat.toDigits 10 n) :
    c.isDigit = true :=
  Nat.isDigit_of_mem_toDigits (by decide) (by decide) member

/-- A natural number is written with a digit in front. -/
theorem exists_toDigits_eq_cons (n : Nat) :
    ∃ c digits, Nat.toDigits 10 n = c :: digits ∧ c.isDigit = true := by
  cases shape : Nat.toDigits 10 n with
  | nil => exact absurd shape Nat.toDigits_ne_nil
  | cons c digits => exact ⟨c, digits, rfl, isDigit_of_mem (n := n) (by simp [shape])⟩

/-- Only zero begins with a zero. -/
theorem head?_toDigits_ne_zero {n : Nat} (positive : 0 < n) :
    (Nat.toDigits 10 n).head? ≠ some '0' := by
  induction n using Nat.strongRecOn with
  | ind n ih =>
      by_cases small : n < 10
      · have digits : ∀ digit < 10, 0 < digit → [Nat.digitChar digit].head? ≠ some '0' := by decide
        rw [Nat.toDigits_of_lt_base small]
        exact digits n small positive
      · have front := ih (n / 10) (by omega) (by omega)
        rw [Nat.toDigits_of_base_le (by decide) (by omega)]
        obtain ⟨c, digits, shape, _⟩ := exists_toDigits_eq_cons (n / 10)
        rw [shape] at front ⊢
        exact front

theorem isTrimmed_toDigits (n : Nat) : isTrimmed (Nat.toDigits 10 n) = true := by
  rcases Nat.eq_zero_or_pos n with rfl | positive
  · rfl
  · have front := head?_toDigits_ne_zero positive
    unfold isTrimmed
    split
    · rename_i shape
      rw [shape] at front
      exact absurd rfl front
    · rfl

/-- The digits of a natural number are read back as that number. -/
theorem number?_toDigits (n : Nat) {rest : List Char} (ends : endsValue rest = true) :
    number? (Nat.toDigits 10 n ++ rest) = some (.natural n, rest) := by
  have unsigned : unsigned? (Nat.toDigits 10 n ++ rest) = some (Nat.toDigits 10 n, [], rest) := by
    simp only [unsigned?, digits?_append Nat.toDigits_ne_nil (fun _ => isDigit_of_mem) ends,
      fraction?_of_endsValue ends, exponent?_of_endsValue ends, isTrimmed_toDigits,
      Option.bind_eq_bind, Option.bind_some, Option.pure_def, if_true, List.append_nil]
  have value : Nat.ofDigitChars 10 (Nat.toDigits 10 n) 0 = n :=
    Nat.ofDigitChars_toDigits (by decide) (by decide)
  rw [number?]
  · simp only [unsigned, value, Option.bind_eq_bind, Option.bind_some, Option.pure_def,
      List.isEmpty_nil, if_true]
  · intro text minus
    -- No digit is a minus sign.
    obtain ⟨c, digits, shape, digit⟩ := exists_toDigits_eq_cons n
    rw [shape, List.cons_append] at minus
    cases minus
    cases digit

/-! ## Layouts -/

/-- A layout that writes nothing but blanks around the parts of a value. -/
structure Layout.Airy (layout : Layout) : Prop where
  line : ∀ depth, ∀ c ∈ layout.line depth, isSpace c = true
  colon : ∃ gap, layout.colon = ':' :: gap ∧ ∀ c ∈ gap, isSpace c = true

theorem Layout.compact_airy : Layout.compact.Airy :=
  ⟨by simp [compact], [], rfl, by simp⟩

theorem Layout.pretty_airy : Layout.pretty.Airy := by
  refine ⟨fun depth c member => ?_, [' '], rfl, List.all_eq_true.mp rfl⟩
  rcases List.mem_cons.mp member with rfl | indent
  · rfl
  · rw [(List.mem_replicate.mp indent).2]
    rfl

theorem skip_gap {gap : List Char} (blank : ∀ c ∈ gap, isSpace c = true) (text : List Char) :
    skip (gap ++ text) = skip text :=
  List.dropWhile_append_of_pos blank

theorem skip_of_not_isSpace {c : Char} (visible : isSpace c = false) (rest : List Char) :
    skip (c :: rest) = c :: rest := by
  simp [skip, visible]

theorem endsValue_gap {gap rest : List Char} (blank : ∀ c ∈ gap, isSpace c = true)
    (ends : endsValue rest = true) : endsValue (gap ++ rest) = true := by
  cases gap with
  | nil => exact ends
  | cons c gap => simp [endsValue, blank c List.mem_cons_self]

/-- Blanks before a value do not matter. -/
theorem value?_gap {gap : List Char} (blank : ∀ c ∈ gap, isSpace c = true) (fuel : Nat)
    (text : List Char) : value? fuel (gap ++ text) = value? fuel text := by
  cases fuel with
  | zero => rfl
  | succ fuel => rw [value?, value?, skip_gap blank]

theorem items?_gap {gap : List Char} (blank : ∀ c ∈ gap, isSpace c = true) (fuel : Nat)
    (text : List Char) : items? fuel (gap ++ text) = items? fuel text := by
  cases fuel with
  | zero => rfl
  | succ fuel => rw [items?, items?, value?_gap blank]

theorem members?_gap {gap : List Char} (blank : ∀ c ∈ gap, isSpace c = true) (fuel : Nat)
    (text : List Char) : members? fuel (gap ++ text) = members? fuel text := by
  cases fuel with
  | zero => rfl
  | succ fuel => rw [members?, members?, skip_gap blank]

/-! ## Values -/

/-- A value with natural numbers only, in which no object has a key twice. -/
inductive Regular : Json → Prop where
  | null : Regular .null
  | bool (value : Bool) : Regular (.bool value)
  | natural (value : Nat) : Regular (.natural value)
  | string (text : String) : Regular (.string text)
  | array {items : List Json} : (∀ item ∈ items, Regular item) → Regular (.array items)
  | object {members : List (String × Json)} : (members.map Prod.fst).Nodup →
      (∀ member ∈ members, Regular member.2) → Regular (.object members)

/-- The value is taken from the front of every text that begins with it, if the fuel suffices
and the text after it does not prolong it. -/
def Taken (layout : Layout) (json : Json) : Prop :=
  ∀ depth fuel rest, 2 * (json.chars layout depth).length ≤ fuel → endsValue rest = true →
    value? fuel (json.chars layout depth ++ rest) = some (json, rest)

theorem visible_of_isDigit {c : Char} (digit : c.isDigit = true) :
    isSpace c = false ∧ c ≠ ']' := by
  refine ⟨Bool.eq_false_iff.mpr fun space => ?_, ?_⟩
  · simp only [isSpace, Bool.or_eq_true, beq_iff_eq] at space
    rcases space with ((rfl | rfl) | rfl) | rfl <;> cases digit
  · rintro rfl
    cases digit

/-- A value does not begin with a blank, nor with the bracket that ends an array. -/
theorem Regular.head_chars {json : Json} (regular : json.Regular) (layout : Layout)
    (depth : Nat) :
    ∃ c, (json.chars layout depth).head? = some c ∧ isSpace c = false ∧ c ≠ ']' := by
  cases regular with
  | null => exact ⟨_, rfl, rfl, by decide⟩
  | bool value => cases value <;> exact ⟨_, rfl, rfl, by decide⟩
  | natural value =>
      obtain ⟨c, digits, shape, digit⟩ := exists_toDigits_eq_cons value
      exact ⟨c, by rw [chars, shape]; rfl, visible_of_isDigit digit⟩
  | string text => exact ⟨_, rfl, rfl, by decide⟩
  | @array items _ => exact ⟨'[', by cases items <;> simp [chars], rfl, by decide⟩
  | @object members _ _ => exact ⟨'\x7b', by cases members <;> simp [chars], rfl, by decide⟩

/-- What follows an item in its array. -/
theorem endsValue_itemsChars (layout : Layout) (depth : Nat) (items : List Json) {gap : List Char}
    (blank : ∀ c ∈ gap, isSpace c = true) (rest : List Char) :
    endsValue (itemsChars layout depth items ++ (gap ++ ']' :: rest)) = true := by
  cases items with
  | nil =>
      rw [itemsChars, List.nil_append]
      exact endsValue_gap blank rfl
  | cons item items =>
      rw [itemsChars]
      rfl

/-- The items of an array, by induction on those after the first. -/
theorem items?_chars {layout : Layout} (airy : layout.Airy) {item : Json} {items : List Json}
    (first : item.Taken layout)
    (others : ∀ other ∈ items, other.Taken layout) (depth : Nat) {gap : List Char}
    (blank : ∀ c ∈ gap, isSpace c = true) (rest : List Char) (fuel : Nat)
    (enough : 2 * (item.chars layout depth ++ itemsChars layout depth items).length + 1 ≤ fuel) :
    items? fuel (item.chars layout depth ++
        (itemsChars layout depth items ++ (gap ++ ']' :: rest))) =
      some (item :: items, rest) := by
  induction items generalizing item fuel with
  | nil =>
      cases fuel with
      | zero => omega
      | succ fuel =>
          rw [List.length_append] at enough
          have taken := first depth fuel _ (by omega)
            (endsValue_itemsChars layout depth [] blank rest)
          rw [items?, taken]
          simp only [itemsChars, List.nil_append, Option.bind_eq_bind, Option.bind_some,
            skip_gap blank, skip_of_not_isSpace (show isSpace ']' = false from rfl)]
          rfl
  | cons next items ih =>
      cases fuel with
      | zero => omega
      | succ fuel =>
          obtain ⟨second, others⟩ := List.forall_mem_cons.mp others
          simp only [itemsChars, List.length_append, List.length_cons] at enough
          have taken := first depth fuel _ (by omega)
            (endsValue_itemsChars layout depth (next :: items) blank rest)
          have later := ih second others fuel (by rw [List.length_append]; omega)
          rw [items?, taken]
          simp only [itemsChars, List.cons_append, List.append_assoc, Option.bind_eq_bind,
            Option.bind_some, skip_of_not_isSpace (show isSpace ',' = false from rfl),
            items?_gap (airy.line depth), later]
          rfl

/-- What follows the value of a member in its object. -/
theorem endsValue_membersChars (layout : Layout) (depth : Nat) (members : List (String × Json))
    {gap : List Char} (blank : ∀ c ∈ gap, isSpace c = true) (rest : List Char) :
    endsValue (membersChars layout depth members ++ (gap ++ '\x7d' :: rest)) = true := by
  cases members with
  | nil =>
      rw [membersChars, List.nil_append]
      exact endsValue_gap blank rfl
  | cons member members =>
      rw [membersChars]
      rfl

/-- A key that no member has is put in front. -/
theorem addMember_of_not_mem {key : String} {members : List (String × Json)}
    (fresh : key ∉ members.map Prod.fst) (value : Json) :
    addMember key value members = (key, value) :: members := by
  have none : members.lookup key = none := by
    rw [List.lookup_eq_none_iff]
    intro member inside
    refine bne_iff_ne.mpr fun same => fresh ?_
    rw [same]
    exact List.mem_map_of_mem inside
  simp [addMember, none]

/-- A key is taken, and then its value. -/
theorem members?_key {layout : Layout} (airy : layout.Airy) (key : String) {value : Json}
    (taken : value.Taken layout) (depth : Nat) {after : List Char}
    (ends : endsValue after = true) (fuel : Nat)
    (enough : 2 * (value.chars layout depth).length ≤ fuel) :
    members? (fuel + 1) (quote key ++ (layout.colon ++ (value.chars layout depth ++ after))) =
      match skip after with
      | ',' :: rest => do
          let (members, rest) ← members? fuel rest
          return (addMember key value members, rest)
      | '\x7d' :: rest => some ([(key, value)], rest)
      | _ => none := by
  obtain ⟨gap, colon, blank⟩ := airy.colon
  rw [quote_append, members?, skip_of_not_isSpace (by rfl)]
  simp only [text?_quote, colon, List.cons_append, Option.bind_eq_bind, Option.bind_some,
    skip_of_not_isSpace (show isSpace ':' = false from rfl), value?_gap blank,
    taken depth fuel after enough ends]
  rfl

/-- The members of an object, by induction on those after the first. -/
theorem members?_chars {layout : Layout} (airy : layout.Airy) {key : String} {value : Json}
    {members : List (String × Json)} (first : value.Taken layout)
    (others : ∀ member ∈ members, member.2.Taken layout)
    (distinct : (((key, value) :: members).map Prod.fst).Nodup) (depth : Nat) {gap : List Char}
    (blank : ∀ c ∈ gap, isSpace c = true) (rest : List Char) (fuel : Nat)
    (enough : 2 * (value.chars layout depth ++ membersChars layout depth members).length + 1 ≤
      fuel) :
    members? fuel (quote key ++ (layout.colon ++ (value.chars layout depth ++
        (membersChars layout depth members ++ (gap ++ '\x7d' :: rest))))) =
      some ((key, value) :: members, rest) := by
  induction members generalizing key value fuel with
  | nil =>
      cases fuel with
      | zero => omega
      | succ fuel =>
          rw [List.length_append] at enough
          rw [members?_key airy key first depth
            (endsValue_membersChars layout depth [] blank rest) fuel (by omega)]
          simp only [membersChars, List.nil_append, skip_gap blank,
            skip_of_not_isSpace (show isSpace '\x7d' = false from rfl)]
  | cons next members ih =>
      cases fuel with
      | zero => omega
      | succ fuel =>
          obtain ⟨second, others⟩ := List.forall_mem_cons.mp others
          obtain ⟨fresh, distinct⟩ := List.nodup_cons.mp distinct
          simp only [membersChars, List.length_append, List.length_cons] at enough
          have later := ih second others distinct fuel (by rw [List.length_append]; omega)
          rw [members?_key airy key first depth
            (endsValue_membersChars layout depth (next :: members) blank rest) fuel (by omega)]
          simp only [membersChars, List.cons_append, List.append_assoc,
            skip_of_not_isSpace (show isSpace ',' = false from rfl),
            members?_gap (airy.line depth), later, Option.bind_eq_bind, Option.bind_some,
            addMember_of_not_mem fresh]
          rfl

/-- An array with items is taken if its items are. -/
theorem Taken.array {layout : Layout} (airy : layout.Airy) {item : Json} {items : List Json}
    (regular : item.Regular) (first : item.Taken layout)
    (others : ∀ other ∈ items, other.Taken layout) :
    (Json.array (item :: items)).Taken layout := by
  intro depth fuel rest enough ends
  have shape : (Json.array (item :: items)).chars layout depth ++ rest =
      '[' :: (layout.line (depth + 1) ++ (item.chars layout (depth + 1) ++
        (itemsChars layout (depth + 1) items ++ (layout.line depth ++ ']' :: rest)))) := by
    simp [chars]
  have length := congrArg List.length shape
  simp only [List.length_append, List.length_cons] at length
  cases fuel with
  | zero => omega
  | succ fuel =>
      have taken := items?_chars airy first others (depth + 1) (airy.line depth) rest fuel
        (by rw [List.length_append]; omega)
      obtain ⟨c, head, visible, notEnd⟩ := regular.head_chars layout (depth + 1)
      obtain ⟨tail, front⟩ := List.head?_eq_some_iff.mp head
      rw [shape, value?, skip_of_not_isSpace (by rfl)]
      rw [front, List.cons_append] at taken ⊢
      simp only [skip_gap (airy.line (depth + 1)), skip_of_not_isSpace visible]
      split
      · rename_i closes
        exact absurd (List.cons.inj closes).1 notEnd
      · rw [taken]
        rfl

/-- An object with members is taken if their values are. -/
theorem Taken.object {layout : Layout} (airy : layout.Airy) {key : String} {value : Json}
    {members : List (String × Json)} (first : value.Taken layout)
    (others : ∀ member ∈ members, member.2.Taken layout)
    (distinct : (((key, value) :: members).map Prod.fst).Nodup) :
    (Json.object ((key, value) :: members)).Taken layout := by
  intro depth fuel rest enough ends
  have shape : (Json.object ((key, value) :: members)).chars layout depth ++ rest =
      '\x7b' :: (layout.line (depth + 1) ++ (quote key ++ (layout.colon ++
        (value.chars layout (depth + 1) ++ (membersChars layout (depth + 1) members ++
          (layout.line depth ++ '\x7d' :: rest)))))) := by
    simp [chars]
  have length := congrArg List.length shape
  simp only [List.length_append, List.length_cons] at length
  cases fuel with
  | zero => omega
  | succ fuel =>
      have taken := members?_chars airy first others distinct (depth + 1) (airy.line depth) rest
        fuel (by rw [List.length_append]; omega)
      rw [shape, value?, skip_of_not_isSpace (by rfl)]
      rw [quote_append] at taken ⊢
      simp only [skip_gap (airy.line (depth + 1)),
        skip_of_not_isSpace (show isSpace '"' = false from rfl)]
      change Option.map _ (members? fuel _) = _
      rw [taken]
      rfl

/-- A natural number is taken: no other value begins with a digit. -/
theorem Taken.natural (layout : Layout) (value : Nat) : (Json.natural value).Taken layout := by
  intro depth fuel rest enough ends
  have number := number?_toDigits value ends
  obtain ⟨c, digits, shape, digit⟩ := exists_toDigits_eq_cons value
  rw [chars, shape] at enough ⊢
  rw [shape, List.cons_append] at number
  cases fuel with
  | zero => simp at enough
  | succ fuel =>
      rw [List.cons_append, value?, skip_of_not_isSpace (visible_of_isDigit digit).1]
      split
      case h_7 => exact number
      all_goals
        rename_i other
        cases (List.cons.inj other).1
        cases digit

/-- A regular value is taken from the front of every text that begins with it. -/
theorem Regular.taken {layout : Layout} (airy : layout.Airy) {json : Json}
    (regular : json.Regular) : json.Taken layout := by
  induction regular with
  | null =>
      intro depth fuel rest enough ends
      cases fuel with
      | zero => simp [chars] at enough
      | succ fuel => rfl
  | bool value =>
      intro depth fuel rest enough ends
      cases fuel with
      | zero => cases value <;> simp [chars] at enough
      | succ fuel => cases value <;> rfl
  | natural value =>
      exact .natural layout value
  | string text =>
      intro depth fuel rest enough ends
      cases fuel with
      | zero => simp [chars, quote] at enough
      | succ fuel =>
          rw [chars, quote_append, value?, skip_of_not_isSpace (by rfl)]
          simp only [text?_quote, Option.map_some]
  | @array items regular taken =>
      cases items with
      | nil =>
          intro depth fuel rest enough ends
          cases fuel with
          | zero => simp [chars] at enough
          | succ fuel => rfl
      | cons item items =>
          obtain ⟨first, others⟩ := List.forall_mem_cons.mp taken
          exact .array airy (regular item List.mem_cons_self) first others
  | @object members distinct regular taken =>
      cases members with
      | nil =>
          intro depth fuel rest enough ends
          cases fuel with
          | zero => simp [chars] at enough
          | succ fuel => rfl
      | cons member members =>
          obtain ⟨first, others⟩ := List.forall_mem_cons.mp taken
          exact .object airy first others distinct

/-- A regular value is read back from its text, in every layout and with blanks after it. -/
theorem Regular.read?_write {json : Json} (regular : json.Regular) {layout : Layout}
    (airy : layout.Airy) {gap : String} (blank : ∀ c ∈ gap.toList, isSpace c = true) :
    read? (json.write layout ++ gap) = some json := by
  have text : (json.write layout ++ gap).toList = json.chars layout 0 ++ gap.toList := by
    simp [write]
  have nothing : skip gap.toList = [] := by
    have skipped := skip_gap blank []
    rwa [List.append_nil] at skipped
  have ends : endsValue (gap.toList ++ []) = true := endsValue_gap blank rfl
  rw [List.append_nil] at ends
  have taken := regular.taken airy 0 (2 * (json.chars layout 0 ++ gap.toList).length + 2)
    gap.toList (by rw [List.length_append]; omega) ends
  simp only [read?, text, taken, nothing, Option.bind_eq_bind, Option.bind_some, Option.pure_def,
    List.isEmpty_nil, if_true]

end Json

end ColonLisp
