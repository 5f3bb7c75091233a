/-
# Proofs.Escapes -- quoted tokens and the texts they stand for

`encode_reads_back`: every text has a quoted spelling that is one line, is lexed as one token and
nothing else, and is parsed to the text.

`decode_normalises`: of the spelling of any quoted token exactly the two delimiting quotes are
taken off; the escapes that are then read are those that the lexer passed over, and no backslash
is left over at the end.  Writing the text again puts a second backslash before each escape that
stands for itself and changes nothing else, so the spelling comes back exactly if it has no such
escape.

The lexer and the reading of escapes are independent recursions.  Each is described by the pieces
that it takes, `passed?` for the one (`closed?_eq`) and `cut` for the other (`decodeUnits_eq`);
they take the same pieces (`cut_spell`), because the lexer never takes a backslash by itself.
What writing does is then a fact about one piece (`Piece.encodeUnits_meaning`), summed up over
all of them.
-/
import ColonLisp.Proofs.Names
import ColonLisp.Proofs.Quoting
import ColonLisp.Proofs.Stages

set_option autoImplicit false

namespace ColonLisp

namespace Text.Quoted

/-! ## What pieces stand for -/

namespace Piece

/-- The characters that a piece stands for. -/
def meaning : Piece → List Char
  | plain c => [c]
  | escape c => unescape c
  | dangling => ['\\']

/-- Whether a piece is an escape that stands for itself: any but `\"`, `\n` and `\\`. -/
def isIdle : Piece → Bool
  | escape c => c != '"' && c != 'n' && c != '\\'
  | plain _ | dangling => false

/-- The piece as it is written again: an idle escape has its backslash twice. -/
def rewritten (piece : Piece) : List Char :=
  if piece.isIdle then '\\' :: piece.chars else piece.chars

end Piece

/-! ## Reading -/

/-- The pieces of which a sequence of units is read. -/
def cut : List Char → List Piece
  | [] => []
  | ['\\'] => [.dangling]
  | '\\' :: c :: rest => .escape c :: cut rest
  | c :: rest => .plain c :: cut rest

/-- Units are read piece by piece. -/
theorem decodeUnits_eq (text : List Char) :
    decodeUnits text = (cut text).flatMap Piece.meaning := by
  fun_induction cut text with
  | case1 | case2 => rfl
  | case3 c rest ih => simp [decodeUnits, ih, Piece.meaning]
  | case4 c rest single pair ih =>
      rw [decodeUnits, ih]
      · rfl
      · exact pair

/-- Pieces that the lexer passes over are read as the same pieces. -/
theorem cut_spell {pieces : List Piece} (passable : ∀ piece ∈ pieces, piece.Passable) :
    cut (spell pieces) = pieces := by
  induction pieces with
  | nil => rfl
  | cons piece pieces ih =>
      obtain ⟨first, others⟩ := List.forall_mem_cons.mp passable
      cases first with
      | plain quote backslash feed =>
          rw [spell_cons, Piece.chars, List.singleton_append, cut, ih others]
          · exact fun same _ => backslash same
          · exact fun _ _ same _ => backslash same
      | escape feed =>
          rw [spell_cons, Piece.chars, List.cons_append, List.singleton_append, cut, ih others]

/-! ## Writing again -/

/-- What a piece stands for is written as the piece, with one more backslash if it is idle. -/
theorem Piece.encodeUnits_meaning {piece : Piece} (passable : piece.Passable) :
    encodeUnits piece.meaning = piece.rewritten := by
  cases passable with
  | @plain c quote backslash feed =>
      simp [meaning, rewritten, isIdle, chars, Quoted.escape, quote, backslash, feed]
  | @escape c feed =>
      by_cases quote : c = '"'
      · subst quote
        rfl
      by_cases letter : c = 'n'
      · subst letter
        rfl
      by_cases backslash : c = '\\'
      · subst backslash
        rfl
      · simp [meaning, unescape, rewritten, isIdle, chars, Quoted.escape, quote, letter,
          backslash, feed]

theorem encodeUnits_append (text more : List Char) :
    encodeUnits (text ++ more) = encodeUnits text ++ encodeUnits more := List.flatMap_append

theorem encodeUnits_meanings {pieces : List Piece}
    (passable : ∀ piece ∈ pieces, piece.Passable) :
    encodeUnits (pieces.flatMap Piece.meaning) = pieces.flatMap Piece.rewritten := by
  induction pieces with
  | nil => rfl
  | cons piece pieces ih =>
      obtain ⟨first, others⟩ := List.forall_mem_cons.mp passable
      rw [List.flatMap_cons, encodeUnits_append, Piece.encodeUnits_meaning first, ih others,
        List.flatMap_cons]

theorem length_rewritten (pieces : List Piece) :
    (pieces.flatMap Piece.rewritten).length =
      (spell pieces).length + pieces.countP Piece.isIdle := by
  induction pieces with
  | nil => rfl
  | cons piece pieces ih =>
      rw [List.flatMap_cons, List.length_append, ih, spell_cons, List.length_append,
        List.countP_cons, Piece.rewritten]
      split
      · rw [List.length_cons]
        omega
      · omega

theorem rewritten_eq_spell_iff {pieces : List Piece} :
    pieces.flatMap Piece.rewritten = spell pieces ↔ ∀ piece ∈ pieces, piece.isIdle = false := by
  constructor
  · intro same
    have length := length_rewritten pieces
    rw [same] at length
    have none : pieces.countP Piece.isIdle = 0 := by omega
    simpa [List.countP_eq_zero] using none
  · intro none
    have same : pieces.map Piece.rewritten = pieces.map Piece.chars := by
      refine List.map_congr_left fun piece member => ?_
      rw [Piece.rewritten, none piece member]
      rfl
    rw [spell, List.flatMap_def, List.flatMap_def, same]

/-! ## Spellings -/

/-- What is known of a quoted spelling between whose quotes the lexer passed over pieces. -/
structure Normalises (spelling : String) (pieces : List Piece) : Prop where
  /-- The two delimiting quotes are taken off, and nothing else. -/
  delimited : spelling.toList = '"' :: strip spelling.toList ++ ['"']
  /-- The pieces that are read are those that were passed over. -/
  reads : cut (strip spelling.toList) = pieces
  complete : .dangling ∉ pieces
  means : decode spelling = String.ofList (pieces.flatMap Piece.meaning)
  writes : (encode (decode spelling)).toList = '"' :: pieces.flatMap Piece.rewritten ++ ['"']
  length : (encode (decode spelling)).length = spelling.length + pieces.countP Piece.isIdle
  fixed : encode (decode spelling) = spelling ↔ ∀ piece ∈ pieces, piece.isIdle = false

theorem normalises_of_passable {spelling : String} {pieces : List Piece}
    (passable : ∀ piece ∈ pieces, piece.Passable)
    (spelled : spelling.toList = '"' :: spell pieces ++ ['"']) : Normalises spelling pieces := by
  have stripped : strip spelling.toList = spell pieces := by rw [spelled, strip_quoted]
  have decoded : decode spelling = String.ofList (pieces.flatMap Piece.meaning) := by
    rw [decode, stripped, decodeUnits_eq, cut_spell passable]
  have encoded :
      (encode (decode spelling)).toList = '"' :: pieces.flatMap Piece.rewritten ++ ['"'] := by
    rw [decoded, encode, String.toList_ofList, String.toList_ofList,
      encodeUnits_meanings passable]
  refine ⟨?_, ?_, ?_, decoded, encoded, ?_, ?_⟩
  · rw [stripped, spelled]
  · rw [stripped, cut_spell passable]
  · intro member
    cases passable _ member
  · rw [← String.length_toList, ← String.length_toList, encoded, spelled]
    simp only [List.length_append, List.length_cons, length_rewritten]
    omega
  · rw [← String.toList_inj, encoded, spelled, ← rewritten_eq_spell_iff]
    simp

end Text.Quoted

/-! ## Quoted tokens -/

open Text.Quoted (Normalises Piece passed? spell)

namespace Lexer

/-- A quote stands in the text at the place of the token; up to the closing quote the lexer
passes over the pieces, and with the two quotes they are the token. -/
def PassesOver (pos : Position) (text : List Char) (t : Token) (pieces : List Piece) : Prop :=
  ∃ before tail rest, text = before ++ '"' :: tail ∧ t.pos = pos.after before ∧
    passed? tail = some (pieces, rest) ∧ t.text.toList = '"' :: spell pieces ++ ['"']

theorem PassesOver.after {pos : Position} (front : List Char) {rest : List Char} {t : Token}
    {pieces : List Piece} (passes : PassesOver (pos.after front) rest t pieces) :
    PassesOver pos (front ++ rest) t pieces := by
  obtain ⟨before, tail, last, rfl, place, passed, spelled⟩ := passes
  refine ⟨front ++ before, tail, last, ?_, ?_, passed, spelled⟩
  · rw [List.append_assoc]
  · rw [Position.after_append, place]

theorem Class.passesOver_of_read {cls : Class} {c : Char} {tail : List Char} {lexeme : Lexeme}
    (found : Class.of? c tail = some cls) (read : cls.read c tail = .ok lexeme)
    (quoted : lexeme.kind = .string) (pos : Position) :
    ∃ pieces, PassesOver pos (c :: tail) ⟨lexeme.kind, String.ofList lexeme.chars, pos⟩ pieces := by
  have kind := Class.kind_mem_of_read read
  rcases Class.of?_cases found with ⟨rfl, rfl⟩ | ⟨rfl, _⟩ | ⟨rfl, _⟩ | ⟨rfl, _⟩
  · simp only [Class.read] at read
    split at read
    · rename_i units rest closed
      cases read
      rw [Text.Quoted.closed?_eq] at closed
      obtain ⟨⟨pieces, after⟩, passed, same⟩ := Option.map_eq_some_iff.mp closed
      cases same
      exact ⟨pieces, [], tail, rest, rfl, rfl, passed, by simp⟩
    · cases read
  all_goals simp [Class.kinds, quoted] at kind

/-- The induction moves the text before the token, so the place is counted from its beginning. -/
theorem Lexes.exists_passesOver {depth : Nat} {pos : Position} {text : List Char}
    {tokens : List Token} (lexed : Lexes depth pos text tokens) :
    ∀ t ∈ tokens, t.kind = .string → ∃ pieces, PassesOver pos text t pieces := by
  induction lexed with
  | done => simp
  | unclosed | unopened | illegible | strange => simp [Objection.token]
  | @blank _ _ c _ _ _ _ ih =>
      intro t member quoted
      obtain ⟨pieces, passes⟩ := ih t member quoted
      exact ⟨pieces, PassesOver.after [c] passes⟩
  | opening _ ih | closing _ ih =>
      intro t member quoted
      rcases List.mem_cons.mp member with rfl | later
      · cases quoted
      · obtain ⟨pieces, passes⟩ := ih t later quoted
        exact ⟨pieces, PassesOver.after [_] passes⟩
  | @lexeme _ _ _ _ _ lexeme _ found read _ ih =>
      intro t member quoted
      rcases List.mem_cons.mp member with rfl | later
      · exact Class.passesOver_of_read found read quoted _
      · obtain ⟨pieces, passes⟩ := ih t later quoted
        rw [← Class.append_of_read read]
        exact ⟨pieces, passes.after lexeme.chars⟩

theorem PassesOver.normalises {pos : Position} {text : List Char} {t : Token}
    {pieces : List Piece} (passes : PassesOver pos text t pieces) : Normalises t.text pieces := by
  obtain ⟨_, _, _, _, _, passed, spelled⟩ := passes
  exact Text.Quoted.normalises_of_passable (Text.Quoted.passable_of_passed? passed) spelled

end Lexer

theorem tokenize_encode (text : String) :
    tokenize (Text.Quoted.encode text) = [⟨.string, Text.Quoted.encode text, ⟨1, 1⟩⟩] := by
  have lexed : Lexer.Lexes 0 Position.start ((Text.Quoted.encode text).toList ++ [])
      [⟨.string, Text.Quoted.encode text, Position.start⟩] := .quoted text .done
  rw [List.append_nil] at lexed
  exact Lexer.tokenize_of_lexes lexed

/-- **Every text has a spelling that is read back**: it is one line, one token that begins at the
first character, and a program of one literal. -/
theorem encode_reads_back (text : String) :
    '\n' ∉ (Text.Quoted.encode text).toList ∧
      tokenize (Text.Quoted.encode text) = [⟨.string, Text.Quoted.encode text, ⟨1, 1⟩⟩] ∧
      Text.Quoted.decode (Text.Quoted.encode text) = text ∧
      parse (tokenize (Text.Quoted.encode text)) = .ok (.program [.string text]) ∧
      parseSource (Text.Quoted.encode text) = .ok (.program [.string text]) := by
  have tokens := tokenize_encode text
  have decoded := Text.Quoted.decode_encode text
  have legible : ∀ t ∈ tokenize (Text.Quoted.encode text), t.kind ≠ .error := by simp [tokens]
  have spelled : SpellsAll (tokenize (Text.Quoted.encode text)) [.string text] := by
    have literal : Spells [⟨.string, Text.Quoted.encode text, ⟨1, 1⟩⟩]
        (.string (Text.Quoted.decode (Text.Quoted.encode text))) := .string rfl
    rw [decoded] at literal
    rw [tokens]
    exact SpellsAll.nil.concat literal
  refine ⟨Text.Quoted.newline_not_mem_encode text, tokens, decoded, spelled.parse_eq, ?_⟩
  exact parseSource_eq_ok_iff.mpr ⟨legible, _, rfl, spelled⟩

/-- **Reading a quoted token and writing it again normalises it.** -/
theorem decode_normalises (source : String) {t : Token} (member : t ∈ tokenize source)
    (quoted : t.kind = .string) :
    ∃ pieces, Lexer.PassesOver Position.start source.toList t pieces ∧
      Normalises t.text pieces := by
  obtain ⟨pieces, passes⟩ := (Lexer.lexes_tokenize source).exists_passesOver t member quoted
  exact ⟨pieces, passes, passes.normalises⟩

/-- Of two tokens the first has an idle escape and grows by one character, and the second is
normal already. -/
theorem normalised_of_idle_and_known_escapes :
    let source := "\"\\t\\\"\" \"\\n\""
    let idle : Token := ⟨.string, "\"\\t\\\"\"", ⟨1, 1⟩⟩
    let known : Token := ⟨.string, "\"\\n\"", ⟨1, 8⟩⟩
    (idle ∈ tokenize source ∧ Normalises idle.text [.escape 't', .escape '"']) ∧
      known ∈ tokenize source ∧ Normalises known.text [.escape 'n'] := by
  intro source idle known
  have idleMember : idle ∈ tokenize source := by decide
  have knownMember : known ∈ tokenize source := by decide
  obtain ⟨idlePieces, _, normalises⟩ := decode_normalises source idleMember rfl
  obtain ⟨knownPieces, _, normal⟩ := decode_normalises source knownMember rfl
  have idleReads : Text.Quoted.cut (Text.Quoted.strip idle.text.toList) =
      [.escape 't', .escape '"'] := by decide
  have knownReads : Text.Quoted.cut (Text.Quoted.strip known.text.toList) = [.escape 'n'] := by
    decide
  rw [← idleReads, ← knownReads, normalises.reads, normal.reads]
  exact ⟨⟨idleMember, normalises⟩, knownMember, normal⟩

end ColonLisp
