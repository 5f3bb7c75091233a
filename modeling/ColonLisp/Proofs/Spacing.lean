/-
# Proofs.Spacing -- how words are spaced does not matter

A text is laid out from words, each a token of some source, with a gap of blanks before each
word and one after the last (`layOut`).  A gap between two words may be empty only if one of
the two carries its own end: a parenthesis or a quoted text (`WellSpaced`).

`spellings_tokenize_layOut`: the tokens of such a text are its words, one by one, up to the
first parenthesis that closes nothing; and if a parenthesis is left open, the end is a fault
(`accounted`).  No gap has a part in that, and the text of a word decides its kind
(`Token.IsWord.kind_eq`), so `spellings_tokenize_eq_of_words`: two layouts of the same words
have the same kinds and texts, those of the last `error` token included.

The induction is on the words, with the depth and the place left open.  At each word the
text behind it ends a word, unless the word itself needs no end (`endsWord_layOut`).
-/
import ColonLisp.Proofs.Lookahead
import Mathlib.Data.List.Chain

set_option autoImplicit false

namespace ColonLisp

/-! ## Layouts -/

namespace Token

/-- What is left of a token when its place is forgotten. -/
def spelling (t : Token) : Kind × String := (t.kind, t.text)

/-- A legible token of some source. -/
def IsWord (t : Token) : Prop := t.kind ≠ .error ∧ ∃ source, t ∈ tokenize source

/-- A parenthesis or a quoted text, which ends where it ends whatever follows. -/
def EndsItself (t : Token) : Prop :=
  t.kind = .leftParen ∨ t.kind = .rightParen ∨ t.kind = .string

instance (t : Token) : Decidable t.EndsItself := inferInstanceAs (Decidable (_ ∨ _ ∨ _))

end Token

/-- A word with the gap before it. -/
structure Placed where
  gap : String
  word : Token
deriving DecidableEq, Repr, Inhabited

/-- The spelling of the word. -/
def Placed.spelling (placed : Placed) : Token.Kind × String := placed.word.spelling

/-- The text of words with their gaps, and a gap after the last word. -/
def layOut : List Placed → String → String
  | [], last => last
  | placed :: rest, last => placed.gap ++ placed.word.text ++ layOut rest last

/-- A text in which nothing but blanks stands. -/
def IsGap (text : String) : Prop := ∀ c ∈ text.toList, Text.isBlank c = true

instance (text : String) : Decidable (IsGap text) :=
  List.decidableBAll (Text.isBlank · = true) text.toList

/-- The words are words, the gaps are blank, and a gap between two words is empty only if one
of the two ends by itself. -/
structure WellSpaced (layout : List Placed) (last : String) : Prop where
  words : ∀ placed ∈ layout, placed.word.IsWord
  gaps : ∀ placed ∈ layout, IsGap placed.gap
  lastGap : IsGap last
  apart : layout.IsChain fun first second =>
    second.gap = "" → first.word.EndsItself ∨ second.word.EndsItself

namespace Lexer

/-- The words as they are read inside so many open parentheses: all of them, or those before
a parenthesis that closes nothing; an open parenthesis is a fault at the end. -/
def accounted : Nat → List (Token.Kind × String) → List (Token.Kind × String)
  | depth, [] => if depth = 0 then [] else [(.error, Objection.unterminatedParen.message)]
  | depth, word :: rest =>
      if word.1 = .leftParen then word :: accounted (depth + 1) rest
      else if word.1 = .rightParen then
        if depth = 0 then [(.error, Objection.unexpectedParen.message)]
        else word :: accounted (depth - 1) rest
      else word :: accounted depth rest

/-! ## Gaps -/

theorem Lexes.blanks {gap rest : List Char} {depth : Nat} {pos : Position} {tokens : List Token}
    (blank : ∀ c ∈ gap, Text.isBlank c = true) (after : Lexes depth (pos.after gap) rest tokens) :
    Lexes depth pos (gap ++ rest) tokens := by
  induction gap generalizing pos with
  | nil => exact after
  | cons c gap ih =>
      obtain ⟨first, others⟩ := List.forall_mem_cons.mp blank
      exact .blank first (ih others after)

theorem toList_layOut_cons (placed : Placed) (rest : List Placed) (last : String) :
    (layOut (placed :: rest) last).toList =
      placed.gap.toList ++ (placed.word.text.toList ++ (layOut rest last).toList) := by
  simp [layOut, String.toList_append]

theorem endsWord_of_blank {gap : List Char} (blank : ∀ c ∈ gap, Text.isBlank c = true)
    (some_blank : gap ≠ []) (rest : List Char) : endsWord (gap ++ rest) = true := by
  cases gap with
  | nil => exact absurd rfl some_blank
  | cons c gap => simp [endsWord, blank c List.mem_cons_self]

/-- A word that ends by itself also ends the word before it. -/
theorem endsWord_of_endsItself {t : Token} (isWord : t.IsWord) (ends : t.EndsItself)
    (rest : List Char) : endsWord (t.text.toList ++ rest) = true := by
  obtain ⟨legible, source, member⟩ := isWord
  rcases (lexes_tokenize source).isLexeme_of_mem t member legible with
    ⟨_, text⟩ | ⟨_, text⟩ | isLexeme
  · rw [text]
    rfl
  · rw [text]
    rfl
  · obtain ⟨c, tail, cls, chars, found, read⟩ := isLexeme
    have kind := Class.kind_mem_of_read read
    rw [chars]
    rcases Class.of?_cases found with ⟨rfl, rfl⟩ | ⟨rfl, _⟩ | ⟨rfl, _⟩ | ⟨rfl, _⟩
    · rfl
    all_goals
      rcases ends with ends | ends | ends
      all_goals simp [ends, Class.kinds] at kind

/-- What follows a word in a layout ends it, unless the word ends by itself. -/
theorem endsWord_layOut {placed : Placed} {rest : List Placed} {last : String}
    (spaced : WellSpaced (placed :: rest) last) (needed : ¬ placed.word.EndsItself) :
    endsWord (layOut rest last).toList = true := by
  cases rest with
  | nil =>
      by_cases empty : last.toList = []
      · simp [layOut, empty, endsWord]
      · have ends := endsWord_of_blank spaced.lastGap empty []
        rwa [List.append_nil] at ends
  | cons next rest =>
      have member : next ∈ placed :: next :: rest := by simp
      rw [toList_layOut_cons]
      by_cases empty : next.gap = ""
      · have apart := (List.isChain_cons_cons.mp spaced.apart).1 empty
        rw [empty]
        exact endsWord_of_endsItself (spaced.words next member) (apart.resolve_left needed) _
      · refine endsWord_of_blank (spaced.gaps next member) (fun none => empty ?_) _
        exact String.toList_inj.mp none

/-! ## Words -/

theorem IsLexeme.kind_ne {kind : Token.Kind} {chars : List Char}
    (isLexeme : IsLexeme kind chars) : kind ≠ .leftParen ∧ kind ≠ .rightParen := by
  obtain ⟨c, tail, cls, _, _, read⟩ := isLexeme
  obtain ⟨noOpening, noClosing, _⟩ := Class.kind_ne_of_read read
  exact ⟨noOpening, noClosing⟩

/-- One word of a layout, before what the rest of the layout gives at every depth. -/
theorem lexes_word {placed : Placed} {rest : List Placed} {last : String}
    (spaced : WellSpaced (placed :: rest) last)
    (later : ∀ depth pos, ∃ tokens, Lexes depth pos (layOut rest last).toList tokens ∧
      tokens.map Token.spelling = accounted depth (rest.map Placed.spelling))
    (depth : Nat) (pos : Position) :
    ∃ tokens, Lexes depth pos (placed.word.text.toList ++ (layOut rest last).toList) tokens ∧
      tokens.map Token.spelling =
        accounted depth (placed.spelling :: rest.map Placed.spelling) := by
  obtain ⟨legible, source, member⟩ := spaced.words placed List.mem_cons_self
  rcases (lexes_tokenize source).isLexeme_of_mem _ member legible with
    ⟨kind, text⟩ | ⟨kind, text⟩ | isLexeme
  · obtain ⟨tokens, lexed, same⟩ := later (depth + 1) (pos.step '(')
    rw [text]
    refine ⟨_, .opening lexed, ?_⟩
    simp [accounted, Placed.spelling, Token.spelling, kind, text, same]
  · rw [text]
    cases depth with
    | zero =>
        refine ⟨_, .unopened, ?_⟩
        simp [accounted, Placed.spelling, Token.spelling, kind, Objection.token]
    | succ outer =>
        obtain ⟨tokens, lexed, same⟩ := later outer (pos.step ')')
        refine ⟨_, .closing lexed, ?_⟩
        simp [accounted, Placed.spelling, Token.spelling, kind, text, same]
  · obtain ⟨tokens, lexed, same⟩ := later depth (pos.after placed.word.text.toList)
    have first : Lexes depth pos (placed.word.text.toList ++ (layOut rest last).toList)
        (⟨placed.word.kind, String.ofList placed.word.text.toList, pos⟩ :: tokens) := by
      by_cases quoted : placed.word.kind = .string
      · rw [quoted] at isLexeme ⊢
        exact .of_isLexeme_string isLexeme lexed
      · refine .of_isLexeme isLexeme (endsWord_layOut spaced ?_) lexed
        rintro (paren | paren | string)
        · exact isLexeme.kind_ne.1 paren
        · exact isLexeme.kind_ne.2 paren
        · exact quoted string
    refine ⟨_, first, ?_⟩
    simp [accounted, Placed.spelling, Token.spelling, isLexeme.kind_ne, same]

/-- A layout is read word by word, whatever its gaps are. -/
theorem lexes_layOut {layout : List Placed} {last : String} (spaced : WellSpaced layout last)
    (depth : Nat) (pos : Position) :
    ∃ tokens, Lexes depth pos (layOut layout last).toList tokens ∧
      tokens.map Token.spelling = accounted depth (layout.map Placed.spelling) := by
  induction layout generalizing depth pos with
  | nil =>
      have blank := spaced.lastGap
      cases depth with
      | zero =>
          have lexed : Lexes 0 pos (last.toList ++ []) [] := .blanks blank .done
          rw [List.append_nil] at lexed
          exact ⟨_, lexed, rfl⟩
      | succ depth =>
          have lexed : Lexes (depth + 1) pos (last.toList ++ []) _ := .blanks blank .unclosed
          rw [List.append_nil] at lexed
          exact ⟨_, lexed, rfl⟩
  | cons placed rest ih =>
      have spacedRest : WellSpaced rest last :=
        ⟨fun next member => spaced.words next (List.mem_cons_of_mem _ member),
          fun next member => spaced.gaps next (List.mem_cons_of_mem _ member),
          spaced.lastGap, spaced.apart.tail⟩
      obtain ⟨tokens, lexed, same⟩ :=
        lexes_word spaced (ih spacedRest) depth (pos.after placed.gap.toList)
      rw [toList_layOut_cons]
      exact ⟨tokens, .blanks (spaced.gaps placed List.mem_cons_self) lexed, same⟩

end Lexer

/-! ## Texts of the same words -/

/-- The tokens of a layout are its words, as far as its parentheses allow. -/
theorem spellings_tokenize_layOut {layout : List Placed} {last : String}
    (spaced : WellSpaced layout last) :
    (tokenize (layOut layout last)).map Token.spelling =
      Lexer.accounted 0 (layout.map Placed.spelling) := by
  obtain ⟨tokens, lexed, same⟩ := Lexer.lexes_layOut spaced 0 Position.start
  rw [Lexer.tokenize_of_lexes lexed, same]

/-- The text of a word decides its kind: laid out alone, the word is what it is accounted
for. -/
theorem Token.IsWord.kind_eq {t u : Token} (isWord : t.IsWord) (isWord' : u.IsWord)
    (same : t.text = u.text) : t.kind = u.kind := by
  have alone : ∀ {t : Token}, t.IsWord →
      (tokenize t.text).map Token.spelling = Lexer.accounted 0 [t.spelling] := by
    intro t isWord
    have spaced : WellSpaced [⟨"", t⟩] "" :=
      ⟨by simpa using isWord, by simp [IsGap], by simp [IsGap], .singleton _⟩
    simpa [layOut, Placed.spelling] using spellings_tokenize_layOut spaced
  -- Only a closing parenthesis, alone, is accounted for by a fault.
  have first : ∀ word : Token.Kind × String, (Lexer.accounted 0 [word]).head?.map Prod.fst =
      some (if word.1 = .rightParen then .error else word.1) := by
    intro word
    by_cases opens : word.1 = .leftParen
    · simp [Lexer.accounted, opens]
    · by_cases closes : word.1 = .rightParen
      · simp [Lexer.accounted, closes]
      · simp [Lexer.accounted, opens, closes]
  have accounts := alone isWord
  rw [same, alone isWord'] at accounts
  have kinds := congrArg (·.head?.map Prod.fst) accounts
  simp only [first, Option.some.injEq, Token.spelling] at kinds
  have legible := isWord.1
  have legible' := isWord'.1
  grind

/-- The words of a layout are known by their texts. -/
theorem spellings_eq_of_texts {first second : List Placed}
    (words : ∀ placed ∈ first, placed.word.IsWord) (words' : ∀ placed ∈ second, placed.word.IsWord)
    (same : first.map (·.word.text) = second.map (·.word.text)) :
    first.map Placed.spelling = second.map Placed.spelling := by
  induction first generalizing second with
  | nil =>
      cases second with
      | nil => rfl
      | cons => cases same
  | cons placed rest ih =>
      cases second with
      | nil => cases same
      | cons other more =>
          obtain ⟨isWord, words⟩ := List.forall_mem_cons.mp words
          obtain ⟨isWord', words'⟩ := List.forall_mem_cons.mp words'
          obtain ⟨text, texts⟩ := List.cons.inj same
          have head : placed.spelling = other.spelling :=
            Prod.ext (isWord.kind_eq isWord' text) text
          rw [List.map_cons, List.map_cons, head, ih words words' texts]

/-- **How words are spaced does not matter.**  Two layouts of the same words have tokens of
the same kinds and texts, and the same fault if they have one. -/
theorem spellings_tokenize_eq_of_words {first second : List Placed} {last last' : String}
    (same : first.map (·.word.text) = second.map (·.word.text)) (spaced : WellSpaced first last)
    (spaced' : WellSpaced second last') :
    (tokenize (layOut first last)).map Token.spelling =
      (tokenize (layOut second last')).map Token.spelling := by
  rw [spellings_tokenize_layOut spaced, spellings_tokenize_layOut spaced',
    spellings_eq_of_texts spaced.words spaced'.words same]

/-- A sign before a numeral, a quoted text with no gap around it, and a parenthesis that
closes nothing. -/
theorem spellings_of_sign_numeral_quoted_paren :
    (tokenize "- +5 \"a b\" )").map Token.spelling =
      (tokenize "\n-\u3000\t+5\"a b\")\r\n").map Token.spelling := by
  let minus : Token := ⟨.identifier, "-", ⟨1, 1⟩⟩
  let five : Token := ⟨.number, "+5", ⟨1, 3⟩⟩
  let quoted : Token := ⟨.string, "\"a b\"", ⟨1, 6⟩⟩
  let paren : Token := ⟨.rightParen, ")", ⟨1, 13⟩⟩
  have isWord : ∀ t ∈ [minus, five, quoted, paren], t.IsWord := by
    intro t member
    have inSource : ∀ t ∈ [minus, five, quoted, paren],
        t.kind ≠ .error ∧ t ∈ tokenize "- +5 \"a b\" ()" := by decide
    exact ⟨(inSource t member).1, _, (inSource t member).2⟩
  let first : List Placed := [⟨"", minus⟩, ⟨" ", five⟩, ⟨" ", quoted⟩, ⟨" ", paren⟩]
  let second : List Placed := [⟨"\n", minus⟩, ⟨"\u3000\t", five⟩, ⟨"", quoted⟩, ⟨"", paren⟩]
  have spaced : WellSpaced first "" :=
    ⟨by simpa [first] using isWord, by decide, by decide, by decide⟩
  have spaced' : WellSpaced second "\r\n" :=
    ⟨by simpa [second] using isWord, by decide, by decide, by decide⟩
  have text : layOut first "" = "- +5 \"a b\" )" := by decide
  have text' : layOut second "\r\n" = "\n-\u3000\t+5\"a b\")\r\n" := by decide
  have same : first.map (·.word.text) = second.map (·.word.text) := rfl
  rw [← text, ← text']
  exact spellings_tokenize_eq_of_words same spaced spaced'

end ColonLisp
