/-
# Proofs.Echoes -- the text that was written determines the results

A run writes the value of each reducible statement and a line feed.  `written_determines_echoes`:
if a run ends well and its sink does not fail, then no printed value has a line feed in it, so
there are as many line feeds in the text as there are reducible statements; and two such runs
that wrote the same text have the same values to show for it.

Three facts meet here.

* Printing is injective on expressions whose names are names to the lexer (`render_inj`): the
  tokens of a printed expression spell it once the heads of its forms are restored.
* A printed expression is one line (`newline_not_mem_render`), so the text of many is cut back
  into them in one way only (`printed_inj`).
* Evaluating a statement makes no new names and writes nothing itself, so what is written are
  such expressions, in order (`evalAll_transcribes`).

A sink need not show what it took.  One that does not fail is handed what a `Transcript` takes
(`Transcribed`), so everything is read off there.
-/
import ColonLisp.Proofs.Invariant
import ColonLisp.Proofs.Pieces
import ColonLisp.Proofs.RoundTrip

set_option autoImplicit false

namespace ColonLisp

open Lexer (NamedByLexer)

/-! ## Printing is injective -/

/-- A printed expression, alone, is lexed to tokens that spell it once heads are restored. -/
theorem spellsAll_tokenize_render {node : Node} (expression : node.IsExpression NamedByLexer) :
    SpellsAll (restoreHeads (tokenize node.render)) [node] := by
  have alone : ∀ other ∈ [node], other.IsExpression NamedByLexer := by simpa using expression
  obtain ⟨shown, restored, lexed, restores, spelled⟩ :=
    Lexer.lexes_renderLines alone Position.start
  have tokens : tokenize node.render = shown := Lexer.tokenize_of_lexes lexed
  rw [tokens, restores.restoreHeads_eq]
  exact spelled

theorem render_inj {node other : Node} (expression : node.IsExpression NamedByLexer)
    (expression' : other.IsExpression NamedByLexer) (same : node.render = other.render) :
    node = other := by
  have parsed := (spellsAll_tokenize_render expression).parse_eq
  have parsed' := (spellsAll_tokenize_render expression').parse_eq
  rw [same, parsed'] at parsed
  cases parsed
  rfl

/-! ## A printed expression is one line -/

theorem newline_not_mem_name {name : String} (named : NamedByLexer name) :
    '\n' ∉ name.toList := by
  unfold NamedByLexer at named
  cases chars : name.toList with
  | nil => simp
  | cons c rest =>
      rw [chars] at named
      obtain ⟨starts, word, _⟩ := Lexer.isName_cons_iff.mp named
      intro member
      rcases List.mem_cons.mp member with rfl | later
      · cases starts
      · cases word _ later

theorem newline_not_mem_render {node : Node} (expression : node.IsExpression NamedByLexer) :
    '\n' ∉ node.render.toList := by
  induction expression with
  | string text => exact Text.Quoted.newline_not_mem_encode text
  | boolean value => cases value <;> decide
  | ref named => exact newline_not_mem_name named
  | definition named _ ih =>
      have noFeed := newline_not_mem_name named
      rw [Lexer.toList_render_definition]
      simp [noFeed, ih]
  | conditional _ _ _ first second third =>
      rw [Lexer.toList_render_conditional]
      simp [first, second, third]

/-! ## Lines -/

/-- The text that shows values: each on a line of its own. -/
def Node.printed : List Node → String
  | [] => ""
  | value :: rest => value.render ++ "\n" ++ printed rest

@[simp] theorem Node.toList_printed_cons (value : Node) (rest : List Node) :
    (printed (value :: rest)).toList = value.render.toList ++ '\n' :: (printed rest).toList := by
  simp [printed]

theorem count_newline_printed {values : List Node}
    (expressions : ∀ value ∈ values, value.IsExpression NamedByLexer) :
    (Node.printed values).toList.count '\n' = values.length := by
  induction values with
  | nil => rfl
  | cons value rest ih =>
      obtain ⟨expression, others⟩ := List.forall_mem_cons.mp expressions
      have noFeed := List.count_eq_zero_of_not_mem (newline_not_mem_render expression)
      simp [noFeed, ih others]

theorem takeWhile_line {line : List Char} (noFeed : '\n' ∉ line) (rest : List Char) :
    (line ++ '\n' :: rest).takeWhile (· ≠ '\n') = line := by
  rw [List.takeWhile_append_of_pos]
  · simp
  · intro c member
    simpa using fun isFeed : c = '\n' => noFeed (isFeed ▸ member)

/-- The first line of a text and what follows it. -/
theorem line_inj {line line' rest rest' : List Char} (noFeed : '\n' ∉ line)
    (noFeed' : '\n' ∉ line') (same : line ++ '\n' :: rest = line' ++ '\n' :: rest') :
    line = line' ∧ rest = rest' := by
  have sameLine : line = line' := by
    rw [← takeWhile_line noFeed rest, same, takeWhile_line noFeed']
  subst sameLine
  exact ⟨rfl, (List.cons.inj (List.append_cancel_left same)).2⟩

/-- The text of values is cut back into them in one way only. -/
theorem printed_inj {values values' : List Node}
    (expressions : ∀ value ∈ values, value.IsExpression NamedByLexer)
    (expressions' : ∀ value ∈ values', value.IsExpression NamedByLexer)
    (same : (Node.printed values).toList = (Node.printed values').toList) : values = values' := by
  induction values generalizing values' with
  | nil =>
      cases values' with
      | nil => rfl
      | cons value rest => simp [Node.printed] at same
  | cons value rest ih =>
      cases values' with
      | nil => simp [Node.printed] at same
      | cons value' rest' =>
          obtain ⟨expression, others⟩ := List.forall_mem_cons.mp expressions
          obtain ⟨expression', others'⟩ := List.forall_mem_cons.mp expressions'
          rw [Node.toList_printed_cons, Node.toList_printed_cons] at same
          obtain ⟨first, later⟩ := line_inj (newline_not_mem_render expression)
            (newline_not_mem_render expression') same
          rw [render_inj expression expression' (String.toList_injective first),
            ih others others' later]

/-! ## The values that are shown -/

/-- The values of the reducible statements. -/
def Node.echoed (statements values : List Node) : List Node :=
  ((statements.zip values).filter fun evaluated => evaluated.1.reducible).map Prod.snd

theorem Node.echoed_cons (statement value : Node) (statements values : List Node) :
    echoed (statement :: statements) (value :: values) =
      if statement.reducible then value :: echoed statements values
      else echoed statements values := by
  unfold echoed
  rw [List.zip_cons_cons, List.filter_cons]
  cases statement.reducible with
  | true => rfl
  | false => rfl

theorem length_echoed {statements values : List Node} (each : values.length = statements.length) :
    (Node.echoed statements values).length = statements.countP Node.reducible := by
  induction statements generalizing values with
  | nil => rfl
  | cons statement rest ih =>
      cases values with
      | nil => cases each
      | cons value values =>
          have others := ih (Nat.succ.inj each)
          rw [Node.echoed_cons, List.countP_cons]
          split
          · rw [List.length_cons, others]
          · exact others

theorem mem_of_mem_echoed {statements values : List Node} {value : Node}
    (member : value ∈ Node.echoed statements values) : value ∈ values := by
  obtain ⟨⟨statement, _⟩, kept, rfl⟩ := List.mem_map.mp member
  exact (List.of_mem_zip (List.mem_filter.mp kept).1).2

/-! ## What a transcript takes -/

/-- Names are bound to expressions of a lexer's names, and the sink is as it was. -/
def Invariant.quiet (sink : Transcript) : Invariant Transcript where
  holds s := s.sink = sink ∧ s.env.HoldsOnly (Node.IsExpression NamedByLexer)
  good := Node.IsExpression NamedByLexer
  string := .string
  boolean := .boolean
  find? holds found := holds.2.find? found
  define holds name _ expression := ⟨holds.1, holds.2.define name expression⟩
  note holds _ := holds

/-- Evaluating one statement writes nothing. -/
theorem quiet_of_eval_ok {statement value : Node} {s after : Session Transcript}
    (expression : statement.IsExpression NamedByLexer)
    (bound : s.env.HoldsOnly (Node.IsExpression NamedByLexer))
    (ran : statement.eval.run s = (.ok value, after)) :
    value.IsExpression NamedByLexer ∧ after.sink = s.sink ∧
      after.env.HoldsOnly (Node.IsExpression NamedByLexer) := by
  have kept : (Invariant.quiet s.sink).Keeps statement.eval (Invariant.quiet s.sink).good :=
    .eval_of_isExpression id expression
  have ends := kept.ends ⟨rfl, bound⟩
  rw [ran] at ends
  cases ends with
  | value isExpression holds => exact ⟨isExpression, holds⟩

theorem Transcript.of_echo_ok {statement value : Node} {s after : Session Transcript}
    (ran : (Run.echo statement value).run s = (.ok (), after)) :
    after.env = s.env ∧ after.sink.text =
      s.sink.text ++ if statement.reducible then value.render ++ "\n" else "" := by
  unfold Run.echo at ran
  split at ran
  · rename_i reduces
    cases ran
    rw [if_pos reduces]
    exact ⟨rfl, rfl⟩
  · rename_i literal
    cases ran
    rw [if_neg literal]
    exact ⟨rfl, String.append_empty.symm⟩

/-- The induction is on the statements; the names bound so far are kept to expressions. -/
theorem evalAll_transcribes {statements : List Node}
    (expressions : ∀ statement ∈ statements, statement.IsExpression NamedByLexer)
    {s last : Session Transcript} (bound : s.env.HoldsOnly (Node.IsExpression NamedByLexer))
    {values : List Node} (ran : (Node.evalAll statements).run s = (.ok values, last)) :
    values.length = statements.length ∧ (∀ value ∈ values, value.IsExpression NamedByLexer) ∧
      last.sink.text = s.sink.text ++ Node.printed (Node.echoed statements values) := by
  induction statements generalizing s values with
  | nil =>
      rw [Node.evalAll] at ran
      cases ran
      exact ⟨rfl, by simp, String.append_empty.symm⟩
  | cons statement rest ih =>
      obtain ⟨expression, others⟩ := List.forall_mem_cons.mp expressions
      rw [Node.evalAll_cons] at ran
      obtain ⟨value, evaluated, evaluates, fromNote⟩ := Run.of_run_bind_ok ran
      obtain ⟨_, noted, notes, fromEcho⟩ := Run.of_run_bind_ok fromNote
      obtain ⟨_, shown, echoes, fromRest⟩ := Run.of_run_bind_ok fromEcho
      obtain ⟨values, ended, ranRest, returns⟩ := Run.of_run_bind_ok fromRest
      cases returns
      cases notes
      obtain ⟨isExpression, untouched, bound⟩ := quiet_of_eval_ok expression bound evaluates
      obtain ⟨env, text⟩ := Transcript.of_echo_ok echoes
      obtain ⟨each, areExpressions, written⟩ := ih others (env ▸ bound) ranRest
      refine ⟨congrArg Nat.succ each, ?_, ?_⟩
      · exact List.forall_mem_cons.mpr ⟨isExpression, areExpressions⟩
      · change shown.sink.text = evaluated.sink.text ++ _ at text
        rw [written, text, untouched, Node.echoed_cons, String.append_assoc]
        split
        · rfl
        · rw [String.empty_append]

/-! ## Sinks that do not fail -/

section Transcribing

variable {σ : Type} [Sink σ]

/-- A sink that does not fail was handed what the transcript took. -/
structure Transcribed (recorded : Recorded σ) (transcript : Transcript) : Prop where
  handed : recorded.handed = Limited.bytes transcript.text
  unfailing : Sink.Unfailing recorded.sink

theorem Transcribed.tracks_call (call : Sink.Call) :
    (Pairing.bySinks (Transcribed (σ := σ))).Tracks (Run.onSink call.on) (Run.onSink call.on) := by
  refine Pairing.bySinks_onSink fun {recorded transcript} same => ?_
  obtain ⟨ok, after⟩ := same.unfailing.on call
  rw [Recorded.on_eq_pass]
  have grown : recorded.handed ++ call.bytes = Limited.bytes (call.on transcript).2.text := by
    rw [same.handed]
    cases call with
    | write text => exact (Limited.bytes_append _ _).symm
    | flush => exact List.append_nil _
  exact ⟨ok.trans (transcript.unfailing [] call).symm, grown, after⟩

/-- A run of a source is tracked if the calls on its sink are. -/
theorem Pairing.bySinks_runSource {τ : Type} [Sink τ] {related : σ → τ → Prop}
    (calls : ∀ call : Sink.Call,
      (bySinks related).Tracks (Run.onSink call.on) (Run.onSink call.on)) (source : String) :
    (bySinks related).Tracks (runSource source) (runSource source) := by
  unfold runSource
  refine .ofExcept_bind (fun _ _ => trivial) fun tokens _ => ?_
  refine (Tracks.note _).bind fun _ => ?_
  refine .ofExcept_bind (fun _ _ => trivial) fun program _ => ?_
  refine (Tracks.note _).bind fun _ => ?_
  have ran := Tracks.evalAll (fun text => calls (.write text)) (calls .flush) program.statements
  exact ran.bind fun _ => .pure _

/-- A sink that does not fail has the result and the text of a transcript. -/
theorem evaluate_transcribed (source : String) {sink : σ} (unfailing : Sink.Unfailing sink) :
    (evaluate source sink).1 = (evaluate source Transcript.empty).1 ∧
      Run.written (runSource source) (Session.start sink) =
        Limited.bytes (evaluate source Transcript.empty).2.sink.text := by
  obtain ⟨alone, _⟩ := (Pairing.bySinks_runSource Records.tracks_call source).agree
    (s := (Session.start sink).recorded) (t := Session.start sink) rfl rfl
  obtain ⟨result, _, same⟩ := (Pairing.bySinks_runSource Transcribed.tracks_call source).agree
    (s := (Session.start sink).recorded) (t := Session.start Transcript.empty) rfl
    ⟨rfl, unfailing⟩
  exact ⟨alone.symm.trans result, same.handed⟩

end Transcribing

/-! ## Runs that end well -/

/-- A source has these statements, and its result is the program of these values, one for each
statement. -/
structure Yields (source : String) (result : Node) (statements values : List Node) : Prop where
  parsed : parseSource source = .ok (.program statements)
  result : result = .program values
  each : values.length = statements.length

theorem isExpression_of_parseSource {source : String} {statements : List Node}
    (parsed : parseSource source = .ok (.program statements)) :
    ∀ statement ∈ statements, statement.IsExpression NamedByLexer := by
  obtain ⟨_, nodes, isProgram, spelled⟩ := parseSource_eq_ok_iff.mp parsed
  cases isProgram
  exact spelled.isExpression (Lexer.lexes_tokenize source).isName_of_identifier

/-- A run into a transcript that ends well: its values are expressions, and the transcript has
those of the reducible statements on it. -/
theorem evaluate_transcript {source : String} {result : Node}
    (ran : (evaluate source Transcript.empty).1 = .ok result) :
    ∃ statements values, Yields source result statements values ∧
      (∀ value ∈ values, value.IsExpression NamedByLexer) ∧
      (evaluate source Transcript.empty).2.sink.text =
        Node.printed (Node.echoed statements values) := by
  obtain ⟨statements, values, started, parsed, isProgram, env, sink, ranAll⟩ :=
    evalAll_of_evaluate_ok ran
  have bound : started.env.HoldsOnly (Node.IsExpression NamedByLexer) := by
    rw [env]
    exact .empty
  obtain ⟨each, expressions, text⟩ :=
    evalAll_transcribes (isExpression_of_parseSource parsed) bound ranAll
  refine ⟨statements, values, ⟨parsed, isProgram, each⟩, expressions, ?_⟩
  rw [text, sink]
  exact String.empty_append

/-- **The text that was written determines the results that it shows**, if the sinks never
fail.  Each of them is one line of it. -/
theorem written_determines_echoes {σ τ : Type} [Sink σ] [Sink τ] {source source' : String}
    {sink : σ} {sink' : τ} {result result' : Node} (unfailing : Sink.Unfailing sink)
    (unfailing' : Sink.Unfailing sink') (ran : (evaluate source sink).1 = .ok result)
    (ran' : (evaluate source' sink').1 = .ok result') :
    ∃ statements values statements' values',
      Yields source result statements values ∧ Yields source' result' statements' values' ∧
      (∀ value ∈ Node.echoed statements values, '\n' ∉ value.render.toList) ∧
      (∃ text, Run.written (runSource source) (.start sink) = Limited.bytes text ∧
        text = Node.printed (Node.echoed statements values) ∧
        text.toList.count '\n' = statements.countP Node.reducible) ∧
      (Run.written (runSource source) (.start sink) =
          Run.written (runSource source') (.start sink') →
        Node.echoed statements values = Node.echoed statements' values') := by
  obtain ⟨sameResult, written⟩ := evaluate_transcribed source unfailing
  obtain ⟨sameResult', written'⟩ := evaluate_transcribed source' unfailing'
  obtain ⟨statements, values, yields, areExpressions, text⟩ :=
    evaluate_transcript (sameResult ▸ ran)
  obtain ⟨statements', values', yields', areExpressions', text'⟩ :=
    evaluate_transcript (sameResult' ▸ ran')
  have expressions : ∀ value ∈ Node.echoed statements values, value.IsExpression NamedByLexer :=
    fun value member => areExpressions value (mem_of_mem_echoed member)
  have expressions' : ∀ value ∈ Node.echoed statements' values',
      value.IsExpression NamedByLexer :=
    fun value member => areExpressions' value (mem_of_mem_echoed member)
  refine ⟨statements, values, statements', values', yields, yields', ?_, ?_, ?_⟩
  · exact fun value member => newline_not_mem_render (expressions value member)
  · refine ⟨_, written, text, ?_⟩
    rw [text, count_newline_printed expressions, length_echoed yields.each]
  · intro same
    rw [written, written', text, text'] at same
    exact printed_inj expressions expressions' (congrArg String.toList (Limited.bytes_inj same))

/-- A definition and the text that it binds, which is a line feed, laid out in two ways; the
second source has a literal before them, and the second sink was in use before. -/
theorem echoes_of_two_layouts :
    let source := "(:define x \"\\n\") x"
    let source' := ":true(:define\nx\"\\n\")x"
    let used : Transcript := ⟨"before\n", 1⟩
    ∃ result result', (evaluate source Transcript.empty).1 = .ok result ∧
      (evaluate source' used).1 = .ok result' ∧
      Run.written (runSource source) (.start Transcript.empty) =
        Run.written (runSource source') (.start used) ∧
      ∃ statements values statements' values' text,
        Yields source result statements values ∧ Yields source' result' statements' values' ∧
        Run.written (runSource source) (.start Transcript.empty) = Limited.bytes text ∧
        text.toList.count '\n' = statements.countP Node.reducible ∧
        Node.echoed statements values = Node.echoed statements' values' := by
  let bound := Node.definition "x" (.string "\n")
  have parsed : parseSource "(:define x \"\\n\") x" = .ok (.program [bound, .ref "x"]) := rfl
  have parsed' : parseSource ":true(:define\nx\"\\n\")x" =
      .ok (.program [.boolean true, bound, .ref "x"]) := rfl
  intro source source' used
  have ran : (evaluate source Transcript.empty).1 = .ok (.program [bound, .string "\n"]) := by
    rw [evaluate_of_parseSource parsed]
    rfl
  have ran' : (evaluate source' used).1 = .ok (.program [.boolean true, bound, .string "\n"]) := by
    rw [evaluate_of_parseSource parsed']
    rfl
  have same : Run.written (runSource source) (.start Transcript.empty) =
      Run.written (runSource source') (.start used) := by
    rw [(evaluate_transcribed source (Transcript.unfailing _)).2,
      (evaluate_transcribed source' (Transcript.unfailing _)).2,
      evaluate_of_parseSource parsed, evaluate_of_parseSource parsed']
    rfl
  obtain ⟨statements, values, statements', values', yields, yields', _,
      ⟨text, written, _, feeds⟩, determined⟩ :=
    written_determines_echoes (Transcript.unfailing _) (Transcript.unfailing _) ran ran'
  exact ⟨_, _, ran, ran', same, statements, values, statements', values', text, yields, yields',
    written, feeds, determined same⟩

end ColonLisp
