/-
# Proofs.Pieces -- a program may be run in pieces

`run_append_line`: two sources that parse also parse as one, with a line feed between them,
and to run the one program is to run the two in turn in one session: the results, the bytes
written and the names bound are the same.  The second piece is not run if the first ends in
a fault.

The pieces differ from the whole by one flush, at the seam.  No action looks at the sink,
so the flush goes unnoticed as long as the sink does not fail (`Sink.Unfailing`); but the
sinks may differ from there on.  The two runs are therefore paired by the bytes that their
sinks were handed (`SameBytes`), and a `Recorded` sink keeps those of a sink that does not
show them.  To record is not to interfere (`Records.tracks_run`).
-/
import ColonLisp.Proofs.Lines
import ColonLisp.Proofs.Stages

set_option autoImplicit false

namespace ColonLisp

variable {σ τ : Type}

/-! ## Calls on a sink -/

/-- What a sink can be asked to do. -/
inductive Sink.Call where
  | write (text : String)
  | flush

namespace Sink.Call

/-- Makes the call. -/
def on [Sink σ] : Call → σ → Except String Unit × σ
  | write text, sink => Sink.write sink text
  | flush, sink => Sink.flush sink

/-- The bytes that are handed over. -/
def bytes : Call → List UInt8
  | write text => Limited.bytes text
  | flush => []

end Sink.Call

/-- No call fails, whatever calls were made before it. -/
def Sink.Unfailing [Sink σ] (sink : σ) : Prop :=
  ∀ (before : List Call) (call : Call),
    (call.on (before.foldl (fun sink call => (call.on sink).2) sink)).1 = .ok ()

theorem Sink.Unfailing.on [Sink σ] {sink : σ} (unfailing : Unfailing sink) (call : Call) :
    (call.on sink).1 = .ok () ∧ Unfailing (call.on sink).2 :=
  ⟨unfailing [] call, fun before => unfailing (call :: before)⟩

theorem Transcript.unfailing (sink : Transcript) : Sink.Unfailing sink := by
  intro before call
  cases call with
  | write text => rfl
  | flush => rfl

/-- A sink, and the bytes that it was handed.  A write that does not fail has written all
of its bytes. -/
structure Recorded (σ : Type) where
  sink : σ
  handed : List UInt8

namespace Recorded

variable [Sink σ]

/-- Passes a call on and records its bytes. -/
def pass (recorded : Recorded σ) (call : Sink.Call) : Except String Unit × Recorded σ :=
  ((call.on recorded.sink).1, ⟨(call.on recorded.sink).2, recorded.handed ++ call.bytes⟩)

instance : Sink (Recorded σ) where
  write recorded text := recorded.pass (.write text)
  flush recorded := recorded.pass .flush

theorem on_eq_pass (call : Sink.Call) (recorded : Recorded σ) :
    call.on recorded = recorded.pass call := by
  cases call with
  | write text => rfl
  | flush => rfl

end Recorded

/-- The session with a record of the bytes written from now on. -/
def Session.recorded (session : Session σ) : Session (Recorded σ) :=
  { session with sink := ⟨session.sink, []⟩ }

/-- The bytes that an action writes. -/
def Run.written {α : Type} (action : Run (Recorded σ) α) (session : Session σ) : List UInt8 :=
  (action.run session.recorded).2.sink.handed

/-! ## Runs whose sinks go together -/

namespace Pairing

/-- Sessions with the same names bound and with related sinks. -/
def bySinks (related : σ → τ → Prop) : Pairing σ τ where
  paired s t := s.env = t.env ∧ related s.sink t.sink
  cut _ _ _ := False
  shared _ := True
  find?_eq := by
    rintro s t ⟨env, _⟩ name
    rw [env]
  define := by
    rintro s t ⟨env, sinks⟩ name value
    exact ⟨congrArg (·.define name value) env, sinks⟩
  note paired _ := paired
  shares_evaluation _ := trivial

variable {related : σ → τ → Prop}

theorem bySinks_onSink {action : σ → Except String Unit × σ} {action' : τ → Except String Unit × τ}
    (alike : ∀ {sink sink'}, related sink sink' →
      (action sink).1 = (action' sink').1 ∧ related (action sink).2 (action' sink').2) :
    (bySinks related).Tracks (Run.onSink action) (Run.onSink action') := by
  refine .onSink id (fun _ => trivial) ?_
  rintro s t ⟨env, sinks⟩
  obtain ⟨outcome, after⟩ := alike sinks
  exact ⟨outcome, env, after⟩

/-- Tracked actions have one outcome, because neither run is ever cut off. -/
theorem Tracks.agree {α : Type} {left : Run σ α} {right : Run τ α}
    (tracked : (bySinks related).Tracks left right) {s : Session σ} {t : Session τ}
    (env : s.env = t.env) (sinks : related s.sink t.sink) :
    (left.run s).1 = (right.run t).1 ∧ (left.run s).2.env = (right.run t).2.env ∧
      related (left.run s).2.sink (right.run t).2.sink := by
  have ends := tracked.ends ⟨env, sinks⟩
  generalize left.run s = ended at ends ⊢
  generalize right.run t = ended' at ends ⊢
  cases ends with
  | value paired => exact ⟨rfl, paired⟩
  | fault _ paired => exact ⟨rfl, paired⟩
  | cut impossible => exact impossible.elim

end Pairing

/-! ## Two programs in turn -/

/-- Runs a program and, if it has a result, another one in the same session: the results of
both. -/
def Node.runInTurn [Sink σ] (first second : Node) : Run σ (List Node) := do
  let values ← first.run
  let more ← second.run
  return values ++ more

section Recording

variable [Sink σ]

/-- A sink with a record, beside the sink alone. -/
def Records (recorded : Recorded σ) (sink : σ) : Prop := recorded.sink = sink

theorem Records.tracks_call (call : Sink.Call) :
    (Pairing.bySinks (Records (σ := σ))).Tracks (Run.onSink call.on) (Run.onSink call.on) := by
  refine Pairing.bySinks_onSink ?_
  rintro recorded _ rfl
  rw [Recorded.on_eq_pass]
  exact ⟨rfl, rfl⟩

theorem Records.tracks_run (program : Node) :
    (Pairing.bySinks (Records (σ := σ))).Tracks program.run program.run :=
  .evalAll (fun text => tracks_call (.write text)) (tracks_call .flush) _

theorem Records.tracks_runInTurn (first second : Node) :
    (Pairing.bySinks (Records (σ := σ))).Tracks (first.runInTurn second)
      (first.runInTurn second) :=
  (tracks_run first).bind fun _ => (tracks_run second).bind fun _ => .pure _

end Recording

/-! ## The flush at the seam -/

section Seam

variable [Sink σ]

/-- Two sinks that do not fail, and were handed the same bytes. -/
structure SameBytes (left right : Recorded σ) : Prop where
  handed : left.handed = right.handed
  unfailing : Sink.Unfailing left.sink
  unfailing' : Sink.Unfailing right.sink

namespace SameBytes

theorem tracks_call (call : Sink.Call) :
    (Pairing.bySinks (SameBytes (σ := σ))).Tracks (Run.onSink call.on) (Run.onSink call.on) := by
  refine Pairing.bySinks_onSink fun {left right} same => ?_
  obtain ⟨ok, after⟩ := same.unfailing.on call
  obtain ⟨ok', after'⟩ := same.unfailing'.on call
  rw [Recorded.on_eq_pass, Recorded.on_eq_pass]
  exact ⟨ok.trans ok'.symm, congrArg (· ++ call.bytes) same.handed, after, after'⟩

/-- A flush in one run alone hands nothing over. -/
theorem tracks_flush :
    (Pairing.bySinks (SameBytes (σ := σ))).Tracks (pure ()) Run.flush := by
  change (Pairing.bySinks SameBytes).Tracks (Run.onSink fun sink => (.ok (), sink)) Run.flush
  refine Pairing.bySinks_onSink fun {left right} same => ?_
  obtain ⟨ok, after⟩ := same.unfailing'.on .flush
  exact ⟨ok.symm, same.handed.trans (List.append_nil _).symm, same.unfailing, after⟩

/-- The induction is on the first statements; the second run flushes where they end. -/
theorem tracks_evalAll_append (first second : List Node) :
    (Pairing.bySinks (SameBytes (σ := σ))).Tracks (Node.evalAll (first ++ second)) (do
      let values ← Node.evalAll first
      let more ← Node.evalAll second
      return values ++ more) := by
  have writes := fun text => tracks_call (σ := σ) (.write text)
  have flushes := tracks_call (σ := σ) .flush
  induction first with
  | nil =>
      have seam := tracks_flush.bind fun _ => Pairing.Tracks.evalAll writes flushes second
      rw [Node.evalAll, bind_assoc]
      simpa only [pure_bind, bind_pure, List.nil_append] using seam
  | cons statement rest ih =>
      rw [List.cons_append, Node.evalAll_cons, Node.evalAll_cons]
      simp only [bind_assoc, pure_bind]
      refine (Pairing.Tracks.eval writes flushes statement).bind fun value => ?_
      refine (Pairing.Tracks.note _).bind fun _ => ?_
      refine (Pairing.Tracks.echo writes statement value).bind fun _ => ?_
      have joined := ih.bind fun values => .pure (value :: values)
      simpa only [bind_assoc, pure_bind, List.cons_append] using joined

end SameBytes

end Seam

/-! ## Two sources as one -/

theorem parseSource_append_line {first second : String} {program program' : Node}
    (parsed : parseSource first = .ok program) (parsed' : parseSource second = .ok program') :
    parseSource (first ++ "\n" ++ second) =
      .ok (.program (program.statements ++ program'.statements)) := by
  obtain ⟨legible, nodes, rfl, spelled⟩ := parseSource_eq_ok_iff.mp parsed
  obtain ⟨legible', nodes', rfl, spelled'⟩ := parseSource_eq_ok_iff.mp parsed'
  have below := spelled'.map
    (Token.kind_down (Position.start.after first.toList).line) (Token.text_down _)
  refine parseSource_eq_ok_iff.mpr ⟨?_, _, rfl, ?_⟩
  · rw [tokenize_append_line legible]
    intro t member
    rcases List.mem_append.mp member with inFirst | moved
    · exact legible t inFirst
    · obtain ⟨u, inSecond, rfl⟩ := List.mem_map.mp moved
      exact legible' u inSecond
  · rw [tokenize_append_line legible]
    exact spelled.append below

/-- **Running a program in pieces is running it whole**, if the sink never fails. -/
theorem run_append_line [Sink σ] {first second : String} {program program' : Node}
    (parsed : parseSource first = .ok program) (parsed' : parseSource second = .ok program')
    (session : Session σ) (unfailing : Sink.Unfailing session.sink) :
    ∃ whole, parseSource (first ++ "\n" ++ second) = .ok whole ∧
      (whole.run.run session).1 = ((program.runInTurn program').run session).1 ∧
      (whole.run.run session).2.env = ((program.runInTurn program').run session).2.env ∧
      Run.written whole.run session = Run.written (program.runInTurn program') session := by
  refine ⟨_, parseSource_append_line parsed parsed', ?_⟩
  generalize isWhole : Node.program (program.statements ++ program'.statements) = whole
  have tracked : (Pairing.bySinks SameBytes).Tracks
      (whole.run : Run (Recorded σ) _) (program.runInTurn program') := by
    rw [← isWhole]
    exact SameBytes.tracks_evalAll_append _ _
  obtain ⟨result, env, same⟩ :=
    tracked.agree (s := session.recorded) rfl ⟨rfl, unfailing, unfailing⟩
  obtain ⟨resultWhole, envWhole, _⟩ :=
    (Records.tracks_run whole).agree (s := session.recorded) (t := session) rfl rfl
  obtain ⟨resultInTurn, envInTurn, _⟩ :=
    (Records.tracks_runInTurn program program').agree (s := session.recorded) (t := session)
      rfl rfl
  refine ⟨?_, ?_, same.handed⟩
  · rw [← resultWhole, ← resultInTurn, result]
  · rw [← envWhole, ← envInTurn, env]

/-- The first piece binds a name that the second looks up; the second writes a line and ends
in a fault. -/
theorem run_of_binding_and_fault :
    let bind := Node.program [.definition "x" (.boolean true)]
    let use := Node.program [.conditional (.ref "x") (.string "yes") (.ref "x"), .ref "y"]
    let session := Session.start Transcript.empty
    parseSource "(:define x :true)" = .ok bind ∧ parseSource "(:if x \"yes\" x) y" = .ok use ∧
      ((bind.runInTurn use).run session).1 = .error (.undefinedVariable "y") ∧
      Run.written (bind.runInTurn use) session = Limited.bytes "(define x :true)\n\"yes\"\n" ∧
      ∃ whole, parseSource ("(:define x :true)" ++ "\n" ++ "(:if x \"yes\" x) y") = .ok whole ∧
        (whole.run.run session).1 = ((bind.runInTurn use).run session).1 ∧
        (whole.run.run session).2.env = ((bind.runInTurn use).run session).2.env ∧
        Run.written whole.run session = Run.written (bind.runInTurn use) session := by
  intro bind use session
  have parsed : parseSource "(:define x :true)" = .ok bind := rfl
  have parsed' : parseSource "(:if x \"yes\" x) y" = .ok use := rfl
  refine ⟨parsed, parsed', rfl, rfl, ?_⟩
  exact run_append_line parsed parsed' session (Transcript.unfailing _)

end ColonLisp
