/-
# Proofs.Stages -- the stage of a fault is decided by the source

A run of a source text cuts it into tokens, parses them and evaluates the program.
`evaluate_by_stage`: the run ends in a fault of the lexer exactly if a token is illegible,
and in a fault of the parser exactly if all tokens are legible and do not spell statements.
In both cases the sink is the one that was handed in.  Faults of evaluation and of the output
are met only when the source has been parsed.

Each stage can only fail in its own way.  A token list without `error` tokens makes no
fault of the lexer (`stage_of_parse_error`), and neither does the evaluator make one
of an earlier stage: it is paired with itself, and the pairing says which faults there are
(`stage_of_run_error`).
-/
import ColonLisp.Proofs.EarliestFault
import ColonLisp.Proofs.Lexing
import ColonLisp.Proofs.Pairing

set_option autoImplicit false

namespace ColonLisp

/-! ## Parsing the tokens of a source -/

/-- No token of a source ends the reading early. -/
theorem beforeEnd_tokenize (source : String) :
    beforeEnd (tokenize source) = tokenize source := by
  have taken : ∀ t ∈ tokenize source, (t.kind != .endOfInput) = true := by
    intro t member
    simpa using (Lexer.lexes_tokenize source).kind_ne_endOfInput t member
  have whole : beforeEnd (tokenize source ++ []) = tokenize source ++ beforeEnd [] :=
    List.takeWhile_append_of_pos taken
  rwa [List.append_nil, show beforeEnd [] = [] from rfl, List.append_nil] at whole

theorem spellsAll_of_parse_tokenize {source : String} {program : Node}
    (parsed : parse (tokenize source) = .ok program) :
    ∃ nodes, program = .program nodes ∧ SpellsAll (tokenize source) nodes := by
  obtain ⟨nodes, isProgram, spelled⟩ := spellsAll_of_parse parsed
  rw [beforeEnd_tokenize] at spelled
  exact ⟨nodes, isProgram, spelled⟩

theorem parseSource_eq_ok_iff {source : String} {program : Node} :
    parseSource source = .ok program ↔
      (∀ t ∈ tokenize source, t.kind ≠ .error) ∧
        ∃ nodes, program = .program nodes ∧ SpellsAll (tokenize source) nodes := by
  constructor
  · intro parsed
    rw [parseSource] at parsed
    cases scanned : scan source with
    | error fault =>
        rw [scanned] at parsed
        cases parsed
    | ok tokens =>
        obtain ⟨rfl, legible⟩ := scan_eq_ok_iff.mp scanned
        rw [scanned] at parsed
        exact ⟨legible, spellsAll_of_parse_tokenize parsed⟩
  · rintro ⟨legible, nodes, rfl, spelled⟩
    rw [parseSource, scan_of_legible legible]
    exact spelled.parse_eq

/-- Legible tokens that do not parse are a fault of the parser. -/
theorem stage_of_parse_error {tokens : List Token} {fault : Fault}
    (noEnd : ∀ t ∈ tokens, t.kind ≠ .endOfInput) (legible : ∀ t ∈ tokens, t.kind ≠ .error)
    (failed : parse tokens = .error fault) : fault.stage = .parsing := by
  rcases Reader.reads_of_read_eq_error noEnd failed with
    ⟨front, t, rest, middle, rfl, _, refuses⟩ | ⟨last, _, rfl⟩
  · cases refuses with
    | illegible illegible => exact absurd illegible (legible t (by simp))
    | objection => rfl
  · rfl

/-! ## Evaluating a program -/

section Evaluation

variable {σ : Type}

/-- A session beside itself: both runs may end in the faults that an evaluator has. -/
def Pairing.itself : Pairing σ σ where
  paired s t := s = t
  cut _ _ _ := False
  shared fault := fault.stage = .evaluation ∨ fault.stage = .output
  find?_eq := by
    rintro s _ rfl name
    rfl
  define := by
    rintro s _ rfl name value
    rfl
  note := by
    rintro s _ rfl event
    rfl
  shares_evaluation := .inl

theorem Pairing.itself_onSink (action : σ → Except String Unit × σ) :
    Pairing.itself.Tracks (Run.onSink action) (Run.onSink action) := by
  refine .onSink id (fun _ => .inr rfl) ?_
  rintro s _ rfl
  exact ⟨rfl, rfl⟩

variable [Sink σ]

/-- A program that is run meets no fault of the lexer or the parser. -/
theorem stage_of_run_error {program : Node} {s : Session σ} {fault : Fault}
    (failed : (program.run.run s).1 = .error fault) :
    fault.stage = .evaluation ∨ fault.stage = .output := by
  have tracked : Pairing.itself.Tracks (program.run : Run σ (List Node)) program.run :=
    .evalAll (fun _ => Pairing.itself_onSink _) (Pairing.itself_onSink _) _
  have ends := tracked.ends (s := s) rfl
  generalize program.run.run s = ended at failed ends
  cases ends with
  | value => cases failed
  | fault shared =>
      cases failed
      exact shared
  | cut impossible => exact impossible.elim

/-! ## The stages of a run -/

theorem evaluate_of_scan_error {source : String} {fault : Fault}
    (failed : scan source = .error fault) (sink : σ) :
    evaluate source sink = (.error fault, .start sink) := by
  rw [evaluate, runSource, failed]
  rfl

theorem evaluate_of_parse_error {source : String} {tokens : List Token} {fault : Fault}
    (scanned : scan source = .ok tokens) (failed : parse tokens = .error fault) (sink : σ) :
    evaluate source sink =
      (.error fault, (Session.start sink).note (.tokens tokens.length)) := by
  rw [evaluate, runSource, scanned, Run.run_bind]
  change (Run.note (.tokens tokens.length) >>= _ : Run σ Node).run (Session.start sink) = _
  rw [failed]
  rfl

theorem evaluate_of_parse_ok {source : String} {tokens : List Token} {program : Node}
    (scanned : scan source = .ok tokens) (parsed : parse tokens = .ok program) (sink : σ) :
    let started := ((Session.start sink).note (.tokens tokens.length)).note .nodes
    evaluate source sink =
      ((program.run.run started).1.map Node.program, (program.run.run started).2) := by
  intro started
  rw [evaluate, runSource, scanned, Run.run_bind]
  change (Run.note (.tokens tokens.length) >>= _ : Run σ Node).run (Session.start sink) = _
  rw [parsed]
  change (program.run >>= _ : Run σ Node).run started = _
  rw [Run.run_bind]
  rcases program.run.run started with ⟨_ | values, after⟩
  · rfl
  · rfl

theorem evaluate_of_parseSource {source : String} {program : Node}
    (parsed : parseSource source = .ok program) (sink : σ) :
    let started := ((Session.start sink).note (.tokens (tokenize source).length)).note .nodes
    evaluate source sink =
      ((program.run.run started).1.map Node.program, (program.run.run started).2) := by
  obtain ⟨legible, nodes, rfl, spelled⟩ := parseSource_eq_ok_iff.mp parsed
  exact evaluate_of_parse_ok (scan_of_legible legible) spelled.parse_eq sink

/-- A run that has a result has parsed its source and evaluated all statements. -/
theorem evalAll_of_evaluate_ok {source : String} {sink : σ} {result : Node}
    (ran : (evaluate source sink).1 = .ok result) :
    ∃ statements values started, parseSource source = .ok (.program statements) ∧
      result = .program values ∧ started.env = .empty ∧ started.sink = sink ∧
      (Node.evalAll statements).run started = (.ok values, (evaluate source sink).2) := by
  cases scanned : scan source with
  | error fault =>
      rw [evaluate_of_scan_error scanned] at ran
      cases ran
  | ok tokens =>
      cases parsed : parse tokens with
      | error fault =>
          rw [evaluate_of_parse_error scanned parsed] at ran
          cases ran
      | ok program =>
          obtain ⟨statements, rfl, _⟩ := spellsAll_of_parse parsed
          have parsedSource : parseSource source = .ok (.program statements) := by
            rw [parseSource, scanned]
            exact parsed
          rw [evaluate_of_parse_ok scanned parsed] at ran ⊢
          generalize ranAll : (Node.run (.program statements) : Run σ _).run _ = ended at ran
          obtain ⟨fault | values, last⟩ := ended
          · cases ran
          cases ran
          exact ⟨statements, values, _, parsedSource, rfl, rfl, rfl, ranAll⟩

/-- Once the source is parsed, only evaluation and output can fail. -/
theorem stage_of_evaluate_error {source : String} {tokens : List Token} {program : Node}
    {sink : σ} {fault : Fault} (scanned : scan source = .ok tokens)
    (parsed : parse tokens = .ok program) (failed : (evaluate source sink).1 = .error fault) :
    fault.stage = .evaluation ∨ fault.stage = .output := by
  rw [evaluate_of_parse_ok scanned parsed] at failed
  generalize ran : (program.run : Run σ (List Node)).run _ = ended at failed
  obtain ⟨fault' | values, after⟩ := ended
  · cases failed
    exact stage_of_run_error (congrArg Prod.fst ran)
  · cases failed

/-- Legible tokens that spell no statements are a fault of the parser, and the sink is not
touched. -/
theorem evaluate_of_ungrammatical {source : String}
    (legible : ∀ t ∈ tokenize source, t.kind ≠ .error)
    (ungrammatical : ¬ ∃ nodes, SpellsAll (tokenize source) nodes) (sink : σ) :
    ∃ fault after, evaluate source sink = (.error fault, after) ∧ fault.stage = .parsing ∧
      after.sink = sink := by
  cases parsed : parse (tokenize source) with
  | ok program =>
      obtain ⟨nodes, _, spelled⟩ := spellsAll_of_parse_tokenize parsed
      exact absurd ⟨nodes, spelled⟩ ungrammatical
  | error fault =>
      have noEnd := (Lexer.lexes_tokenize source).kind_ne_endOfInput
      have met := evaluate_of_parse_error (scan_of_legible legible) parsed sink
      exact ⟨fault, _, met, stage_of_parse_error noEnd legible parsed, rfl⟩

/-- What a fault of a stage says about the source, and about the session it leaves. -/
def Stage.Blames (source : String) (sink : σ) (after : Session σ) : Stage → Prop
  | .lexing => (∃ t ∈ tokenize source, t.kind = .error) ∧ after.sink = sink
  | .parsing =>
      (∀ t ∈ tokenize source, t.kind ≠ .error) ∧
        (¬ ∃ nodes, SpellsAll (tokenize source) nodes) ∧ after.sink = sink
  | .evaluation | .output => ∃ program, parseSource source = .ok program

theorem blames_of_evaluate_error {source : String} {sink : σ} {fault : Fault}
    (failed : (evaluate source sink).1 = .error fault) :
    fault.stage.Blames source sink (evaluate source sink).2 := by
  by_cases illegible : ∃ t ∈ tokenize source, t.kind = .error
  · obtain ⟨t, member, kind⟩ := illegible
    rw [evaluate_of_scan_error (scan_of_illegible member kind)] at failed ⊢
    cases failed
    exact ⟨⟨t, member, kind⟩, rfl⟩
  have legible : ∀ t ∈ tokenize source, t.kind ≠ .error :=
    fun t member kind => illegible ⟨t, member, kind⟩
  by_cases grammatical : ∃ nodes, SpellsAll (tokenize source) nodes
  · obtain ⟨nodes, spelled⟩ := grammatical
    have parsed : parseSource source = .ok (.program nodes) :=
      parseSource_eq_ok_iff.mpr ⟨legible, nodes, rfl, spelled⟩
    rcases stage_of_evaluate_error (scan_of_legible legible) spelled.parse_eq failed with
      stage | stage
    · rw [stage]
      exact ⟨_, parsed⟩
    · rw [stage]
      exact ⟨_, parsed⟩
  · obtain ⟨fault', after, met, stage, untouched⟩ :=
      evaluate_of_ungrammatical legible grammatical sink
    rw [met] at failed ⊢
    cases failed
    rw [stage]
    exact ⟨legible, grammatical, untouched⟩

/-- **The stage of a fault is decided by the source**, and nothing is written before the
source is parsed.  The sink may be of any type, so it may keep a record of every call. -/
theorem evaluate_by_stage (source : String) (sink : σ) :
    ((∃ fault, (evaluate source sink).1 = .error fault ∧ fault.stage = .lexing) ↔
        ∃ t ∈ tokenize source, t.kind = .error) ∧
      (∀ t ∈ tokenize source, t.kind = .error →
        (evaluate source sink).1 = .error (.lexical t.pos t.text)) ∧
      ((∃ fault, (evaluate source sink).1 = .error fault ∧ fault.stage = .parsing) ↔
        (∀ t ∈ tokenize source, t.kind ≠ .error) ∧
          ¬ ∃ nodes, SpellsAll (tokenize source) nodes) ∧
      (∀ fault, (evaluate source sink).1 = .error fault →
        fault.stage = .lexing ∨ fault.stage = .parsing → (evaluate source sink).2.sink = sink) ∧
      (∀ fault, (evaluate source sink).1 = .error fault →
        fault.stage = .evaluation ∨ fault.stage = .output →
          ∃ program, parseSource source = .ok program) := by
  have blames : ∀ {fault : Fault} {stage : Stage}, (evaluate source sink).1 = .error fault →
      fault.stage = stage → stage.Blames source sink (evaluate source sink).2 := by
    rintro fault _ failed rfl
    exact blames_of_evaluate_error failed
  have carried : ∀ t ∈ tokenize source, t.kind = .error →
      (evaluate source sink).1 = .error (.lexical t.pos t.text) := by
    intro t member illegible
    exact congrArg Prod.fst (evaluate_of_scan_error (scan_of_illegible member illegible) sink)
  refine ⟨⟨?_, ?_⟩, carried, ⟨?_, ?_⟩, ?_, ?_⟩
  · rintro ⟨fault, failed, stage⟩
    exact (blames failed stage).1
  · rintro ⟨t, member, illegible⟩
    exact ⟨_, carried t member illegible, rfl⟩
  · rintro ⟨fault, failed, stage⟩
    obtain ⟨legible, ungrammatical, _⟩ := blames failed stage
    exact ⟨legible, ungrammatical⟩
  · rintro ⟨legible, ungrammatical⟩
    obtain ⟨fault, after, met, stage, _⟩ := evaluate_of_ungrammatical legible ungrammatical sink
    exact ⟨fault, congrArg Prod.fst met, stage⟩
  · rintro fault failed (stage | stage)
    · exact (blames failed stage).2
    · exact (blames failed stage).2.2
  · rintro fault failed (stage | stage)
    · exact blames failed stage
    · exact blames failed stage

end Evaluation

end ColonLisp
