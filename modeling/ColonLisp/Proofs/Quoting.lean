/-
# Proofs.Quoting -- a quoted spelling is closed where it ends and reads back

Writing, finding the closing quote and reading are three independent recursions.  They
meet at the unit of one character, `escape c`: it never holds the closing quote
(`closed?_escape_append`) and stands for `c` alone (`decodeUnits_escape_append`).  So the
units of a whole text are passed over as one piece (`closed?_encodeUnits`) and read back
to it, and `decode_encode` holds for every text, also one that ends in a backslash or
looks quoted itself.

The way to a closing quote is cut into pieces (`passed?`, `closed?_eq`): single characters, and
backslashes with the character after them.  Their characters are units (`IsUnits`), which may be
escaped in other ways too.  Units are found up to the quote after them, so what was found once is
found again before every other text (`closed?_units`).
-/
import ColonLisp.Text.Quoted

set_option autoImplicit false

namespace ColonLisp.Text.Quoted

@[simp] theorem encodeUnits_nil : encodeUnits [] = [] := rfl

@[simp] theorem encodeUnits_cons (c : Char) (text : List Char) :
    encodeUnits (c :: text) = escape c ++ encodeUnits text := List.flatMap_cons

/-- The four shapes of the unit of a character. -/
theorem escape_cases (c : Char) :
    c = '"' ∧ escape c = ['\\', '"'] ∨ c = '\\' ∧ escape c = ['\\', '\\'] ∨
      c = '\n' ∧ escape c = ['\\', 'n'] ∨
      (c ≠ '"' ∧ c ≠ '\\' ∧ c ≠ '\n') ∧ escape c = [c] := by
  by_cases quote : c = '"'
  · exact .inl ⟨quote, by simp [escape, quote]⟩
  · by_cases backslash : c = '\\'
    · exact .inr (.inl ⟨backslash, by simp [escape, backslash]⟩)
    · by_cases feed : c = '\n'
      · exact .inr (.inr (.inl ⟨feed, by simp [escape, feed]⟩))
      · have unit : escape c = [c] := by simp [escape, quote, backslash, feed]
        exact .inr (.inr (.inr ⟨⟨quote, backslash, feed⟩, unit⟩))

/-- A quoted spelling is one line, whatever it stands for. -/
theorem newline_not_mem_encode (text : String) : '\n' ∉ (encode text).toList := by
  have units : '\n' ∉ encodeUnits text.toList := by
    simp only [encodeUnits, List.mem_flatMap, not_exists, not_and]
    intro c _
    rcases escape_cases c with ⟨_, unit⟩ | ⟨_, unit⟩ | ⟨_, unit⟩ | ⟨⟨_, _, feed⟩, unit⟩
    · simp [unit]
    · simp [unit]
    · simp [unit]
    · simpa [unit] using Ne.symm feed
  simpa [encode] using units

/-! ## The closing quote -/

theorem closed?_escape_append (c : Char) (rest : List Char) :
    closed? (escape c ++ rest) =
      (closed? rest).map fun (units, after) => (escape c ++ units, after) := by
  rcases escape_cases c with
    ⟨rfl, unit⟩ | ⟨rfl, unit⟩ | ⟨rfl, unit⟩ | ⟨⟨quote, backslash, feed⟩, unit⟩
  all_goals rw [unit]
  · simp [closed?]
  · simp [closed?]
  · simp [closed?]
  · rw [List.singleton_append, closed?]
    · rfl
    · exact quote
    · exact feed
    · exact fun single _ => backslash single
    · exact fun _ _ pair _ => backslash pair

/-- The units of a text end at the quote that follows them. -/
theorem closed?_encodeUnits (text rest : List Char) :
    closed? (encodeUnits text ++ '"' :: rest) = some (encodeUnits text ++ ['"'], rest) := by
  induction text with
  | nil => rfl
  | cons c text ih =>
      rw [encodeUnits_cons, List.append_assoc, closed?_escape_append, ih]
      simp

/-! ## Pieces -/

/-- What is taken of a quoted spelling at a time. -/
inductive Piece where
  /-- A character by itself. -/
  | plain (c : Char)
  /-- A backslash and the character after it. -/
  | escape (c : Char)
  /-- A backslash with no character after it. -/
  | dangling
deriving DecidableEq, Repr

/-- The characters of a piece. -/
def Piece.chars : Piece → List Char
  | plain c => [c]
  | escape c => ['\\', c]
  | dangling => ['\\']

/-- The pieces that can stand before a closing quote. -/
inductive Piece.Passable : Piece → Prop where
  | plain {c : Char} : c ≠ '"' → c ≠ '\\' → c ≠ '\n' → Passable (plain c)
  | escape {c : Char} : c ≠ '\n' → Passable (escape c)

/-- The characters of pieces in turn. -/
def spell (pieces : List Piece) : List Char := pieces.flatMap Piece.chars

@[simp] theorem spell_nil : spell [] = [] := rfl

@[simp] theorem spell_cons (piece : Piece) (pieces : List Piece) :
    spell (piece :: pieces) = piece.chars ++ spell pieces := List.flatMap_cons

/-- The pieces that are passed over on the way to the closing quote, and what follows it. -/
def passed? : List Char → Option (List Piece × List Char)
  | [] => none
  | '"' :: rest => some ([], rest)
  | '\n' :: _ => none
  | ['\\'] => none
  | '\\' :: c :: rest =>
      if c = '\n' then none
      else (passed? rest).map fun (pieces, after) => (.escape c :: pieces, after)
  | c :: rest => (passed? rest).map fun (pieces, after) => (.plain c :: pieces, after)

/-- The closing quote is found by passing over pieces. -/
theorem closed?_eq (text : List Char) :
    closed? text = (passed? text).map fun (pieces, after) => (spell pieces ++ ['"'], after) := by
  fun_induction passed? text with
  | case1 | case2 | case3 | case4 => rfl
  | case5 rest => simp [closed?]
  | case6 c rest feed ih => simp [closed?, feed, ih, Piece.chars, Function.comp_def]
  | case7 c rest quote newline single pair ih =>
      rw [closed?, ih]
      · simp [Piece.chars, Function.comp_def]
      · exact quote
      · exact newline
      · exact single
      · exact pair

theorem passable_of_passed? {text rest : List Char} {pieces : List Piece}
    (found : passed? text = some (pieces, rest)) : ∀ piece ∈ pieces, piece.Passable := by
  fun_induction passed? text generalizing pieces with
  | case1 | case3 | case4 => cases found
  | case2 tail =>
      cases found
      simp
  | case5 tail => simp at found
  | case6 c tail feed ih =>
      obtain ⟨⟨others, after⟩, inside, same⟩ := Option.map_eq_some_iff.mp found
      cases same
      exact List.forall_mem_cons.mpr ⟨.escape feed, ih inside⟩
  | case7 c tail quote newline single pair ih =>
      obtain ⟨⟨others, after⟩, inside, same⟩ := Option.map_eq_some_iff.mp found
      cases same
      have backslash : c ≠ '\\' := by
        rintro rfl
        cases tail with
        | nil => exact single rfl rfl
        | cons d tail => exact pair d tail rfl rfl
      exact List.forall_mem_cons.mpr ⟨.plain quote backslash newline, ih inside⟩

/-! ## Units -/

/-- Units: characters other than a quote, a backslash and a line feed, and pairs of a backslash
and a character other than a line feed. -/
inductive IsUnits : List Char → Prop where
  | nil : IsUnits []
  | plain {c : Char} {units : List Char} : c ≠ '"' → c ≠ '\\' → c ≠ '\n' → IsUnits units →
      IsUnits (c :: units)
  | pair {c : Char} {units : List Char} : c ≠ '\n' → IsUnits units → IsUnits ('\\' :: c :: units)

/-- Units end at the quote that follows them. -/
theorem closed?_of_isUnits {units : List Char} (isUnits : IsUnits units) (rest : List Char) :
    closed? (units ++ '"' :: rest) = some (units ++ ['"'], rest) := by
  induction isUnits with
  | nil => rfl
  | @plain c units quote backslash feed _ ih =>
      have unit : escape c = [c] := by simp [escape, quote, backslash, feed]
      have first := closed?_escape_append c (units ++ '"' :: rest)
      rw [unit, ih] at first
      exact first
  | pair feed _ ih => simp [closed?, feed, ih]

theorem isUnits_spell {pieces : List Piece} (passable : ∀ piece ∈ pieces, piece.Passable) :
    IsUnits (spell pieces) := by
  induction pieces with
  | nil => exact .nil
  | cons piece pieces ih =>
      obtain ⟨first, others⟩ := List.forall_mem_cons.mp passable
      cases first with
      | plain quote backslash feed => exact .plain quote backslash feed (ih others)
      | escape feed => exact .pair feed (ih others)

/-- What is found up to a closing quote is units. -/
theorem isUnits_of_closed? {text body rest : List Char} (found : closed? text = some (body, rest)) :
    ∃ units, IsUnits units ∧ body = units ++ ['"'] := by
  rw [closed?_eq] at found
  obtain ⟨⟨pieces, after⟩, passed, same⟩ := Option.map_eq_some_iff.mp found
  cases same
  exact ⟨spell pieces, isUnits_spell (passable_of_passed? passed), rfl⟩

/-- What was closed is closed alike before any other text. -/
theorem closed?_units {text units rest : List Char} (found : closed? text = some (units, rest))
    (more : List Char) : closed? (units ++ more) = some (units, more) := by
  obtain ⟨units, isUnits, rfl⟩ := isUnits_of_closed? found
  rw [List.append_assoc]
  exact closed?_of_isUnits isUnits more

/-! ## Reading back -/

theorem decodeUnits_escape_append (c : Char) (rest : List Char) :
    decodeUnits (escape c ++ rest) = c :: decodeUnits rest := by
  rcases escape_cases c with ⟨rfl, unit⟩ | ⟨rfl, unit⟩ | ⟨rfl, unit⟩ | ⟨⟨_, backslash, _⟩, unit⟩
  all_goals rw [unit]
  · simp [decodeUnits, unescape]
  · simp [decodeUnits, unescape]
  · simp [decodeUnits, unescape]
  · rw [List.singleton_append, decodeUnits]
    exact fun _ _ pair _ => backslash pair

theorem decodeUnits_encodeUnits (text : List Char) : decodeUnits (encodeUnits text) = text := by
  induction text with
  | nil => rfl
  | cons c text ih => rw [encodeUnits_cons, decodeUnits_escape_append, ih]

theorem strip_quoted (body : List Char) : strip ('"' :: body ++ ['"']) = body := by
  simp [strip]

/-- Every text is what its quoted spelling stands for. -/
theorem decode_encode (text : String) : decode (encode text) = text := by
  rw [decode, encode, String.toList_ofList, strip_quoted, decodeUnits_encodeUnits,
    String.ofList_toList]

end ColonLisp.Text.Quoted
