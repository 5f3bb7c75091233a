/-
# Proofs.Strictness -- the strict and the lenient reading agree

A source can be read in two ways.  The strict reading refuses a source that cannot be cut into
tokens to its end, and parses the tokens of the others (`scan`, `parseSource`).  The lenient one
parses the tokens of every source, the last of which may be illegible (`tokenize`, `parse`).
`strict_agrees_with_lenient`: a source that is scanned has the same parse either way.  One that
is not has no parse either way, and the lenient reading ends in the fault of the strict one, or
in an objection to a token that stands strictly before the place of that fault.

* More text leads to a later place (`Position.before_after`), and the offsets of the tokens
  ascend, so the tokens of a source stand in order (`pairwise_before_tokenize`).
* A reading that fails has refused a token and has taken only legible ones before it.  So it
  has refused the illegible token, or one that stands before it (`parse_of_illegible`).
-/
import ColonLisp.Evaluation
import ColonLisp.Proofs.Balance
import ColonLisp.Proofs.Places
import ColonLisp.Proofs.Stages

set_option autoImplicit false

namespace ColonLisp

/-! ## The order of places -/

namespace Position

/-- An earlier line, or an earlier column of the same line. -/
def Before (pos later : Position) : Prop :=
  pos.line < later.line ∨ pos.line = later.line ∧ pos.column < later.column

theorem Before.trans {first second third : Position} (before : first.Before second)
    (after : second.Before third) : first.Before third := by
  unfold Before at before after ⊢
  omega

theorem before_step (pos : Position) (c : Char) : pos.Before (pos.step c) := by
  unfold step
  split
  · exact .inl (Nat.lt_succ_self pos.line)
  · exact .inr ⟨rfl, Nat.lt_succ_self pos.column⟩

theorem before_after (pos : Position) (c : Char) (text : List Char) :
    pos.Before (pos.after (c :: text)) := by
  induction text generalizing pos c with
  | nil => exact pos.before_step c
  | cons next rest ih =>
      have first := pos.before_step c
      exact first.trans (ih (pos.step c) next)

theorem ofOffset_eq (text : List Char) (offset : Nat) :
    ofOffset text offset = start.after (text.take offset) := by
  rw [start_after]
  rfl

theorem ofOffset_before {text : List Char} {offset later : Nat} (ascends : offset < later)
    (inside : later ≤ text.length) : (ofOffset text offset).Before (ofOffset text later) := by
  -- What stands between the two offsets begins with a character.
  have between : (text.take later).drop offset =
      text[offset] :: (text.take later).drop (offset + 1) := by
    rw [List.drop_eq_getElem_cons (by simp; omega), List.getElem_take]
  have upTo : (text.take later).take offset = text.take offset := by
    rw [List.take_take, Nat.min_eq_left (Nat.le_of_lt ascends)]
  have whole := List.take_append_drop offset (text.take later)
  rw [upTo, between] at whole
  rw [ofOffset_eq, ofOffset_eq, ← whole, after_append]
  exact before_after _ _ _

end Position

/-- The tokens of a source stand in order, an illegible one after all others. -/
theorem pairwise_before_tokenize (source : String) :
    (tokenize source).Pairwise fun t later => t.pos.Before later.pos := by
  obtain ⟨located, same, places⟩ := exists_located [] (Lexer.lexes_tokenize source)
  rw [← same, List.pairwise_map]
  refine places.ascending.imp_of_mem ?_
  intro entry later member member' ascends
  rw [places.place entry member, places.place later member']
  exact Position.ofOffset_before ascends (places.inside later member')

/-! ## A source with an illegible token -/

/-- The lenient reading does not step over an illegible token, and where it stops before it, it
stops at an earlier place. -/
theorem parse_of_illegible {source : String} {t : Token} (member : t ∈ tokenize source)
    (illegible : t.kind = .error) :
    parse (tokenize source) = .error (.lexical t.pos t.text) ∨
      ∃ pos message, parse (tokenize source) = .error (.syntactic pos message) ∧
        pos.Before t.pos := by
  cases parsed : parse (tokenize source) with
  | ok program =>
      obtain ⟨nodes, _, spelled⟩ := spellsAll_of_parse_tokenize parsed
      have taken := Reader.Reads.of_spellsAll spelled []
      exact absurd illegible (taken.legible t member)
  | error fault =>
      obtain ⟨front, refused, rest, middle, whole, run, refuses⟩ :=
        Reader.refuses_of_read_tokenize parsed
      cases refuses with
      | illegible kind =>
          left
          have atRefused : refused ∈ tokenize source := by simp [whole]
          have same := scan_of_illegible member illegible
          rw [scan_of_illegible atRefused kind] at same
          rw [Except.error.inj same]
      | objection legible _ _ =>
          right
          refine ⟨_, _, rfl, ?_⟩
          have later : t ∈ rest := by
            rw [whole] at member
            rcases List.mem_append.mp member with taken | notTaken
            · exact absurd illegible (run.legible t taken)
            · rcases List.mem_cons.mp notTaken with rfl | later
              · exact absurd illegible legible
              · exact later
          have ordered := pairwise_before_tokenize source
          rw [whole] at ordered
          have fromRefused := (List.pairwise_append.mp ordered).2.1
          exact (List.pairwise_cons.mp fromRefused).1 t later

/-- **The strict and the lenient reading agree.**  What the strict one accepts, both parse
alike.  What it refuses, neither parses, and the lenient one meets no later fault: it is that of
the strict reading, or an objection to a token that stands before its place. -/
theorem strict_agrees_with_lenient (source : String) :
    match scan source with
    | .ok tokens =>
        tokens = tokenize source ∧ (∀ t ∈ tokens, t.kind ≠ .error) ∧
          parseSource source = parse (tokenize source)
    | .error fault =>
        ∃ pos text, fault = .lexical pos text ∧ parseSource source = .error fault ∧
          (parse (tokenize source) = .error fault ∨
            ∃ earlier message, parse (tokenize source) = .error (.syntactic earlier message) ∧
              earlier.Before pos) := by
  by_cases legible : ∀ t ∈ tokenize source, t.kind ≠ .error
  · have scanned := scan_of_legible legible
    rw [parseSource, scanned]
    exact ⟨rfl, legible, rfl⟩
  · simp only [Classical.not_forall, Classical.not_not] at legible
    obtain ⟨t, member, illegible⟩ := legible
    have scanned := scan_of_illegible member illegible
    rw [parseSource, scanned]
    exact ⟨t.pos, t.text, rfl, rfl, parse_of_illegible member illegible⟩

example : scan "(a\n \"b" = .error (.lexical ⟨2, 2⟩ "unterminated string") ∧
    parse (tokenize "(a\n \"b") =
      .error (.syntactic ⟨1, 2⟩ "function call are not yet supported") :=
  ⟨rfl, rfl⟩

end ColonLisp
