/-
# Proofs.CommandLine -- the command does what a run of the source does

The command takes a source through its stages by hand, and shows what it has between them.
`answer_reports_evaluate`: its report is nonetheless that of `evaluate`, whatever the options
are.  Standard output is what was written, whatever is to be shown; the exit code tells whether
there was a fault; and standard error has the tokens and the tree that were asked for, as far
as the source has them, and then the fault, each on lines of its own (`shown`).  So arguments
that ask for these options have this report (`run_reports_evaluate`).

A run in the session of `evaluate` differs from one by hand in the events that were noted.
No action looks at them, so two runs that begin with the same names and the same sink end
alike (`agree_of_same_sink`).
-/
import ColonLisp.Command
import ColonLisp.Proofs.Pieces

set_option autoImplicit false

namespace ColonLisp

/-- Sessions that differ in their events alone run a program alike. -/
theorem agree_of_same_sink {σ : Type} [Sink σ] (program : Node) {s t : Session σ}
    (env : s.env = t.env) (sink : s.sink = t.sink) :
    (program.run.run s).1 = (program.run.run t).1 ∧
      (program.run.run s).2.sink = (program.run.run t).2.sink := by
  have calls : ∀ call : Sink.Call,
      (Pairing.bySinks (· = ·)).Tracks (Run.onSink (σ := σ) call.on) (Run.onSink call.on) := by
    intro call
    refine Pairing.bySinks_onSink ?_
    rintro sink _ rfl
    exact ⟨rfl, rfl⟩
  have tracked : (Pairing.bySinks (· = ·)).Tracks (program.run : Run σ _) program.run :=
    .evalAll (fun text => calls (.write text)) (calls .flush) _
  obtain ⟨result, _, same⟩ := tracked.agree env sink
  exact ⟨result, same⟩

namespace Command

/-! ## The input -/

/-- The text that a run of the command is given, by the file that the options name or by
standard input. -/
def Gives (folder : Folder) (stdin : ByteArray) (options : Options) (source : String) : Prop :=
  match options.file with
  | some name => folder.read name = .ok source.toUTF8
  | none => stdin = source.toUTF8

theorem decode_toUTF8 (source : String) : decode source.toUTF8 = .ok source := by
  have decoded : String.fromUTF8? source.toUTF8 = some source := by
    unfold String.fromUTF8?
    split
    · rfl
    · rename_i invalid
      exact absurd source.isValidUTF8 invalid
  rw [decode, decoded]

theorem Gives.input_eq {folder : Folder} {stdin : ByteArray} {options : Options}
    {source : String} (given : Gives folder stdin options source) :
    input folder stdin options = .ok source.toUTF8 := by
  unfold Gives at given
  unfold input
  cases file : options.file with
  | some name =>
      rw [file] at given
      exact given
  | none =>
      rw [file] at given
      exact congrArg Except.ok given

theorem Gives.answer_eq {folder : Folder} {stdin : ByteArray} {options : Options}
    {source : String} (given : Gives folder stdin options source) :
    answer (.run options) (input folder stdin) = interpret options source := by
  have decoded : (Except.ok source.toUTF8 >>= decode) = .ok source := decode_toUTF8 source
  rw [answer, given.input_eq, decoded]

/-! ## The report -/

/-- What is shown on standard error: the tokens if there are any, the tree if there is one, and
the fault if there is one. -/
def shown (options : Options) (source : String) : List String :=
  let tokens := match scan source with
    | .ok tokens => [(Json.array (tokens.map Token.toJson)).pretty]
    | .error _ => []
  let tree := match parseSource source with
    | .ok program => [program.toJson.pretty]
    | .error _ => []
  let fault := match (evaluate source Transcript.empty).1 with
    | .ok _ => []
    | .error fault => [fault.report]
  (if options.dumpTokens then tokens else []) ++ (if options.dumpTree then tree else []) ++ fault

/-- Texts, each with a line feed after it. -/
def lines (texts : List String) : String := String.join (texts.map (· ++ "\n"))

/-- The report that agrees with a run of the source. -/
def reportOf (options : Options) (source : String) : Report where
  exit := match (evaluate source Transcript.empty).1 with
    | .ok _ => 0
    | .error _ => 1
  out := (evaluate source Transcript.empty).2.sink.text
  err := lines (shown options source)

@[simp] theorem lines_nil : lines [] = "" := rfl

@[simp] theorem lines_cons (text : String) (texts : List String) :
    lines (text :: texts) = text ++ "\n" ++ lines texts := by
  simp [lines]

theorem lines_append (texts more : List String) :
    lines (texts ++ more) = lines texts ++ lines more := by
  simp [lines]

theorem dump_eq_lines (asked : Bool) (json : Json) :
    dump asked json = lines (if asked then [json.pretty] else []) := by
  cases asked with
  | true => simp [dump]
  | false => rfl

theorem parseSource_of_scan {source : String} {tokens : List Token}
    (scanned : scan source = .ok tokens) : parseSource source = parse tokens := by
  rw [parseSource, scanned]
  rfl

theorem interpret_of_scan_error {source : String} {fault : Fault}
    (scanned : scan source = .error fault) (options : Options) :
    interpret options source = reportOf options source := by
  have parsed : parseSource source = .error fault := by
    rw [parseSource, scanned]
    rfl
  have ran := evaluate_of_scan_error scanned Transcript.empty
  simp only [interpret, reportOf, shown, scanned, parsed, ran, ite_self, List.nil_append]
  simp [Report.failed, Session.start, Transcript.empty]

theorem interpret_of_parse_error {source : String} {tokens : List Token} {fault : Fault}
    (scanned : scan source = .ok tokens) (failed : parse tokens = .error fault)
    (options : Options) : interpret options source = reportOf options source := by
  have parsed := (parseSource_of_scan scanned).trans failed
  have ran := evaluate_of_parse_error scanned failed Transcript.empty
  simp only [interpret, reportOf, shown, scanned, failed, parsed, ran, ite_self, List.append_nil,
    lines_append, dump_eq_lines]
  simp [Report.failed, Session.start, Session.note, Transcript.empty, String.append_assoc]

theorem interpret_of_parse_ok {source : String} {tokens : List Token} {program : Node}
    (scanned : scan source = .ok tokens) (parsed : parse tokens = .ok program)
    (options : Options) : interpret options source = reportOf options source := by
  have parsedSource := (parseSource_of_scan scanned).trans parsed
  have ran := evaluate_of_parse_ok scanned parsed Transcript.empty
  obtain ⟨result, sink⟩ := agree_of_same_sink program
    (s := ((Session.start Transcript.empty).note (.tokens tokens.length)).note .nodes)
    (t := Session.start Transcript.empty) rfl rfl
  simp only [interpret, reportOf, shown, scanned, parsed, parsedSource, ran, result, sink,
    lines_append, dump_eq_lines]
  rcases program.run.run (Session.start Transcript.empty) with ⟨fault | values, last⟩
  · simp [Report.failed, Except.map, String.append_assoc]
  · simp [Except.map]

theorem interpret_eq_reportOf (options : Options) (source : String) :
    interpret options source = reportOf options source := by
  cases scanned : scan source with
  | error fault => exact interpret_of_scan_error scanned options
  | ok tokens =>
      cases parsed : parse tokens with
      | error fault => exact interpret_of_parse_error scanned parsed options
      | ok program => exact interpret_of_parse_ok scanned parsed options

/-- **The command reports what a run of the source does**, whatever is to be shown and wherever
the source comes from. -/
theorem answer_reports_evaluate {folder : Folder} {stdin : ByteArray} {options : Options}
    {source : String} (given : Gives folder stdin options source) :
    answer (.run options) (input folder stdin) = reportOf options source :=
  given.answer_eq.trans (interpret_eq_reportOf options source)

/-- A file is run that binds a name and then looks up another, with both dumps asked for. -/
theorem report_of_binding_and_fault :
    let folder := Folder.ofFiles [("./p", "(:define x :true) y".toUTF8)]
    let args := ["--dump-ast", "p", "--dump-tokens"]
    let options : Options := ⟨some "p", true, true⟩
    Request.ofArgs args = .run options ∧
      Gives folder .empty options "(:define x :true) y" ∧
      run folder .empty args = reportOf options "(:define x :true) y" ∧
      (run folder .empty args).exit = 1 ∧
      (run folder .empty args).out = "(define x :true)\n" := by
  intro folder args options
  have asked : Request.ofArgs args = .run options := by decide
  have given : Gives folder .empty options "(:define x :true) y" := by rfl
  have reports : run folder .empty args = reportOf options "(:define x :true) y" := by
    rw [run, asked]
    exact answer_reports_evaluate given
  have parsed : parseSource "(:define x :true) y" =
      .ok (.program [.definition "x" (.boolean true), .ref "y"]) := rfl
  have ran := evaluate_of_parseSource parsed Transcript.empty
  refine ⟨asked, given, reports, ?_, ?_⟩
  · rw [reports, reportOf, ran]
    rfl
  · rw [reports, reportOf, ran]
    rfl

/-- Arguments that ask for a run have the report of that run. -/
theorem run_reports_evaluate {folder : Folder} {stdin : ByteArray} {args : List String}
    {options : Options} {source : String} (asked : Request.ofArgs args = .run options)
    (given : Gives folder stdin options source) :
    run folder stdin args = reportOf options source := by
  rw [run, asked, given.answer_eq, interpret_eq_reportOf]

end Command

end ColonLisp
