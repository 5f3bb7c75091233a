/-
# Proofs.Places -- no character is lost, and every token stands where it says

`tokenize_located`: the tokens of a source can be given offsets in it, in ascending order, such
that every legible token is spelled by the characters at its offset, no two overlap, and every
other character is blank up to the end or to the place where the source could not be read on.
The line and the column of each token, of an illegible one too, are those of its offset, counted
from the line feeds before it (`Position.ofOffset`).

One token is one turn of the lexer: blanks, the token, and the rest (`Lexes.turn`).  The run is
an induction on the tokens with the text before them left open, so an offset is the length of
that text and never has to be shifted (`exists_located`).
-/
import ColonLisp.Proofs.LexicalGrammar
import Mathlib.Data.List.Induction

set_option autoImplicit false

namespace ColonLisp

/-! ## Places by counting -/

/-- The place of the character at an offset: one more than the line feeds before it, and one
more than the characters since the last of them. -/
def Position.ofOffset (text : List Char) (offset : Nat) : Position where
  line := 1 + (text.take offset).count '\n'
  column := 1 + ((text.take offset).reverse.takeWhile (· ≠ '\n')).length

/-- The place after a text is counted from the text; the induction is from its end. -/
theorem Position.start_after (text : List Char) :
    start.after text =
      ⟨1 + text.count '\n', 1 + (text.reverse.takeWhile (· ≠ '\n')).length⟩ := by
  induction text using List.reverseRecOn with
  | nil => rfl
  | append_singleton text c ih =>
      rw [after_append, ih, after_cons, after_nil]
      by_cases feed : c = '\n'
      · simp [step, feed, Nat.add_assoc]
      · simp [step, feed, Nat.add_assoc]

theorem Position.ofOffset_length (before rest : List Char) :
    ofOffset (before ++ rest) before.length = start.after before := by
  rw [start_after, ofOffset, List.take_left]

/-! ## Tokens with offsets -/

/-- A legible token occupies its text from its offset on; an illegible one all that follows. -/
def Token.Occupies (t : Token) (start offset : Nat) : Prop :=
  start ≤ offset ∧ (t.kind ≠ .error → offset < start + t.text.length)

/-- Tokens with their offsets in a text, of which the characters from `first` on are accounted
for. -/
structure Located (text : List Char) (first : Nat) (located : List (Token × Nat)) : Prop where
  from_first : ∀ entry ∈ located, first ≤ entry.2
  inside : ∀ entry ∈ located, entry.2 ≤ text.length
  ascending : located.Pairwise fun entry later => entry.2 < later.2
  apart : located.Pairwise fun entry later => entry.2 + entry.1.text.length ≤ later.2
  spelled : ∀ entry ∈ located, entry.1.kind ≠ .error → entry.1.text ≠ "" ∧
    (text.drop entry.2).take entry.1.text.length = entry.1.text.toList
  blank : ∀ offset c, first ≤ offset → text[offset]? = some c →
    (∀ entry ∈ located, ¬ entry.1.Occupies entry.2 offset) → Text.isBlank c = true
  place : ∀ entry ∈ located, entry.1.pos = Position.ofOffset text entry.2

namespace Located

/-- Nothing but blanks is left. -/
theorem nil {before rest : List Char} (blank : ∀ c ∈ rest, Text.isBlank c = true) :
    Located (before ++ rest) before.length [] where
  from_first := by simp
  inside := by simp
  ascending := .nil
  apart := .nil
  spelled := by simp
  blank := by
    intro offset c from_first found _
    rw [List.getElem?_append_right from_first] at found
    exact blank c (List.mem_of_getElem? found)
  place := by simp

theorem isBlank_of_gap {before gap rest : List Char} (blank : ∀ c ∈ gap, Text.isBlank c = true)
    {offset : Nat} {c : Char} (from_first : before.length ≤ offset)
    (inside : offset < (before ++ gap).length)
    (found : (before ++ (gap ++ rest))[offset]? = some c) : Text.isBlank c = true := by
  rw [← List.append_assoc, List.getElem?_append_left inside,
    List.getElem?_append_right from_first] at found
  exact blank c (List.mem_of_getElem? found)

/-- The place where the text cannot be read on. -/
theorem illegible {before gap rest : List Char} {t : Token} (illegible : t.kind = .error)
    (blank : ∀ c ∈ gap, Text.isBlank c = true)
    (place : t.pos = (Position.start.after before).after gap) :
    Located (before ++ (gap ++ rest)) before.length [(t, (before ++ gap).length)] where
  from_first := by simp
  inside := by
    simp only [List.mem_singleton, forall_eq, List.length_append]
    omega
  ascending := List.pairwise_singleton _ _
  apart := List.pairwise_singleton _ _
  spelled := by simp [illegible]
  blank := by
    intro offset c from_first found free
    have inside : offset < (before ++ gap).length := by
      refine Nat.lt_of_not_le fun reached => free _ List.mem_cons_self ⟨reached, ?_⟩
      exact fun legible => absurd illegible legible
    exact isBlank_of_gap blank from_first inside found
  place := by
    simp only [List.mem_singleton, forall_eq]
    rw [← List.append_assoc, Position.ofOffset_length, Position.after_append, place]

/-- One more token in front. -/
theorem cons {before gap rest : List Char} {t : Token} {located : List (Token × Nat)}
    (blank : ∀ c ∈ gap, Text.isBlank c = true)
    (place : t.pos = (Position.start.after before).after gap) (nonempty : t.text.toList ≠ [])
    (later : Located (before ++ (gap ++ (t.text.toList ++ rest)))
      (before ++ gap ++ t.text.toList).length located) :
    Located (before ++ (gap ++ (t.text.toList ++ rest))) before.length
      ((t, (before ++ gap).length) :: located) := by
  have some_char := List.length_pos_iff.mpr nonempty
  have length :
      (before ++ gap ++ t.text.toList).length = (before ++ gap).length + t.text.length := by
    rw [List.length_append, String.length_toList]
  have ends : ∀ entry ∈ located, (before ++ gap).length + t.text.length ≤ entry.2 :=
    length ▸ later.from_first
  rw [String.length_toList] at some_char
  refine ⟨?_, ?_, ?_, ?_, ?_, ?_, ?_⟩
  · refine List.forall_mem_cons.mpr ⟨by simp, fun entry member => ?_⟩
    have := ends entry member
    rw [List.length_append] at this
    omega
  · refine List.forall_mem_cons.mpr ⟨?_, later.inside⟩
    simp only [List.length_append]
    omega
  · refine List.pairwise_cons.mpr ⟨fun entry member => ?_, later.ascending⟩
    have := ends entry member
    omega
  · exact List.pairwise_cons.mpr ⟨ends, later.apart⟩
  · refine List.forall_mem_cons.mpr ⟨fun _ => ⟨?_, ?_⟩, later.spelled⟩
    · rintro empty
      exact nonempty (by rw [empty]; rfl)
    · rw [← List.append_assoc, List.drop_left, ← String.length_toList, List.take_left]
  · intro offset c from_first found free
    obtain ⟨free, others⟩ := List.forall_mem_cons.mp free
    by_cases inside : offset < (before ++ gap).length
    · exact isBlank_of_gap blank from_first inside found
    · have outside : ¬ offset < (before ++ gap ++ t.text.toList).length := fun within =>
        free ⟨Nat.le_of_not_lt inside, fun _ => length ▸ within⟩
      exact later.blank offset c (Nat.le_of_not_lt outside) found others
  · refine List.forall_mem_cons.mpr ⟨?_, later.place⟩
    simp only
    rw [← List.append_assoc, Position.ofOffset_length, Position.after_append, place]

end Located

open Lexer in
/-- The induction is on the tokens, with the text before them left open. -/
theorem exists_located {tokens : List Token} {depth : Nat} (before : List Char) {text : List Char}
    (lexed : Lexes depth (Position.start.after before) text tokens) :
    ∃ located, located.map Prod.fst = tokens ∧ Located (before ++ text) before.length located := by
  induction tokens generalizing depth before text with
  | nil =>
      obtain ⟨gap, rest, rfl, blank, _, turn⟩ := lexed.turn
      cases turn with
      | ends =>
          rw [List.append_nil]
          exact ⟨[], rfl, .nil blank⟩
  | cons t tokens ih =>
      obtain ⟨gap, rest, rfl, blank, _, turn⟩ := lexed.turn
      cases turn with
      | objects => exact ⟨_, rfl, .illegible rfl blank rfl⟩
      | token place spelled _ later =>
          rw [← Position.after_append, ← Position.after_append, ← List.append_assoc] at later
          obtain ⟨located, same, later⟩ := ih _ later
          rw [List.append_assoc, List.append_assoc] at later
          refine ⟨_, ?_, .cons blank place spelled.ne_nil later⟩
          rw [List.map_cons, same]

/-- **No character is lost, and every token stands where it says.** -/
theorem tokenize_located (source : String) :
    (∃ located, located.map Prod.fst = tokenize source ∧ Located source.toList 0 located) ∧
      (∀ t ∈ (tokenize source).dropLast, t.kind ≠ .error) ∧
      ∀ t ∈ tokenize source, t.kind ≠ .endOfInput := by
  have lexed := Lexer.lexes_tokenize source
  exact ⟨exists_located [] lexed, lexed.legible_dropLast, lexed.kind_ne_endOfInput⟩

end ColonLisp
