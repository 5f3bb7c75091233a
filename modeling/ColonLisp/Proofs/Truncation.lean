/-
# Proofs.Truncation -- a failing sink only cuts the output short

A source is run into a `Transcript`, which takes everything, and into a `Limited` sink.
`evaluate_into_failing_sink`: the limited sink keeps the first bytes of the transcript, as many
as it has room for.  If they are all of them, the results are the same; otherwise the run
ends in a fault of the output and the sink is not flushed.  A sink that only refuses to be
flushed keeps everything, and takes away the result of a run that had one.

The statements of a parsed program have no programs inside them, so a run echoes its
statements and flushes once, at the end (`evaluate_eq`).  Up to that flush the two runs are
paired by `limitedTo`: the limited sink keeps the bytes of the transcript, or it is full and
the transcript goes on without it.  A write is the only step at which they may part.
-/
import ColonLisp.Proofs.Pairing

set_option autoImplicit false

namespace ColonLisp

/-! ## The flush at the end -/

section Echo

variable {σ : Type} [Sink σ]

/-- The values of statements, each written as it is reached, without the flush. -/
def Node.echoAll : List Node → Run σ (List Node)
  | [] => return []
  | statement :: rest => do
      let value ← statement.eval
      Run.note (.evaluated statement value)
      Run.echo statement value
      return value :: (← Node.echoAll rest)

theorem Node.evalAll_eq (nodes : List Node) :
    (Node.evalAll nodes : Run σ (List Node)) = do
      let values ← Node.echoAll nodes
      Run.flush
      return values := by
  induction nodes with
  | nil =>
      rw [Node.evalAll, Node.echoAll, pure_bind]
  | cons statement rest ih =>
      rw [Node.evalAll_cons, Node.echoAll, ih]
      simp only [bind_assoc, pure_bind]

/-- Runs a source text, without the flush. -/
def echoSource (source : String) : Run σ Node := do
  let tokens ← Run.ofExcept (scan source)
  Run.note (.tokens tokens.length)
  let program ← Run.ofExcept (parse tokens)
  Run.note .nodes
  return .program (← Node.echoAll program.statements)

theorem runSource_eq (source : String) :
    (runSource source : Run σ Node) = do
      let result ← echoSource source
      Run.flush
      return result := by
  simp only [runSource, echoSource, Node.run, Node.evalAll_eq, bind_assoc, pure_bind]

/-- How a run ends with a flush after it: a run that has a result loses it if the flush
fails, and a run that has none is not flushed. -/
def withFlush {α : Type} : Except Fault α × Session σ → Except Fault α × Session σ
  | (.ok result, s) =>
      ((Sink.flush s.sink).1.mapError Fault.output |>.map fun _ => result,
        { s with sink := (Sink.flush s.sink).2 })
  | (.error fault, s) => (.error fault, s)

theorem evaluate_eq (source : String) (sink : σ) :
    evaluate source sink = withFlush ((echoSource source).run (Session.start sink)) := by
  rw [evaluate, runSource_eq, Run.run_bind]
  rcases (echoSource source).run (Session.start sink) with ⟨fault | result, after⟩
  · rfl
  · simp only [Run.run_bind, Run.flush, Run.run_onSink, withFlush]
    cases (Sink.flush after.sink).1 with
    | ok _ => rfl
    | error _ => rfl

end Echo

/-! ## The two runs up to the flush -/

/-- A write that there is room for. -/
theorem Limited.write_of_fits {sink : Limited} {text : String}
    (fits : ∀ room ∈ sink.limit, sink.kept.length + (bytes text).length ≤ room) :
    sink.write text = (.ok (), { sink with kept := sink.kept ++ bytes text }) := by
  have all : sink.fitting (bytes text) = bytes text := by
    unfold fitting
    cases limit : sink.limit with
    | none => rfl
    | some room =>
        have := fits room limit
        exact List.take_of_length_le (by omega)
  simp only [write, all, if_true]

/-- A write that there is no room for fills the sink. -/
theorem Limited.write_of_full {sink : Limited} {text : String} {room : Nat}
    (limit : sink.limit = some room) (within : sink.kept.length ≤ room)
    (full : room < sink.kept.length + (bytes text).length) :
    sink.write text =
      (.error sink.whenFull.reason, { sink with kept := (sink.kept ++ bytes text).take room }) := by
  have some_left : (sink.fitting (bytes text)).length ≠ (bytes text).length := by
    simp only [fitting, limit, List.length_take]
    omega
  have kept : sink.kept ++ sink.fitting (bytes text) = (sink.kept ++ bytes text).take room := by
    rw [List.take_append, List.take_of_length_le within]
    simp only [fitting, limit]
  simp only [write, some_left, if_false, kept]

/-- A source that cannot be cut into tokens is a fault of the lexer. -/
theorem stage_of_scan {source : String} {fault : Fault} (refused : scan source = .error fault) :
    fault.stage = .lexing := by
  simp only [scan] at refused
  repeat' split at refused
  all_goals cases refused
  rfl

/-- The limited sink has kept all bytes of the transcript, and neither was flushed. -/
structure KeepsUp (limit : Option Nat) (whenFull : WhenFull) (refusesFlush : Bool)
    (s : Session Transcript) (t : Session Limited) : Prop where
  env : s.env = t.env
  unflushed : s.sink.flushes = 0
  sink : t.sink = ⟨limit, whenFull, refusesFlush, Limited.bytes s.sink.text, 0⟩
  fits : ∀ room ∈ limit, (Limited.bytes s.sink.text).length ≤ room

/-- The limited sink is full, and has kept the first bytes of the transcript. -/
structure CutOff (limit : Option Nat) (whenFull : WhenFull) (transcript : Transcript)
    (fault : Fault) (t : Session Limited) : Prop where
  reason : fault = .output whenFull.reason
  unflushed : t.sink.flushes = 0
  kept : ∃ room ∈ limit, room < (Limited.bytes transcript.text).length ∧
    t.sink.kept = (Limited.bytes transcript.text).take room

namespace Pairing

def limitedTo (limit : Option Nat) (whenFull : WhenFull) (refusesFlush : Bool) :
    Pairing Transcript Limited where
  paired := KeepsUp limit whenFull refusesFlush
  cut := CutOff limit whenFull
  shared fault := fault.stage ≠ .output
  find?_eq keepsUp name := by rw [keepsUp.env]
  define := by
    rintro s t ⟨env, unflushed, sink, fits⟩ name value
    refine ⟨?_, unflushed, sink, fits⟩
    change s.env.define name value = t.env.define name value
    rw [env]
  note keepsUp _ := ⟨keepsUp.env, keepsUp.unflushed, keepsUp.sink, keepsUp.fits⟩
  shares_evaluation := by
    intro fault evaluation output
    rw [evaluation] at output
    cases output

variable {limit : Option Nat} {whenFull : WhenFull} {refusesFlush : Bool}

theorem limitedTo_start :
    KeepsUp limit whenFull refusesFlush (Session.start Transcript.empty)
      (Session.start (Limited.empty limit whenFull refusesFlush)) :=
  ⟨rfl, rfl, rfl, fun _ _ => Nat.zero_le _⟩

/-- The step at which the two runs may part. -/
theorem limitedTo_write (text : String) :
    (limitedTo limit whenFull refusesFlush).Tracks (Run.write text) (Run.write text) := by
  constructor
  · rintro s t ⟨env, unflushed, sink, fits⟩
    simp only [Run.write, Run.run_onSink]
    have longer : (Limited.bytes (s.sink.text ++ text)).length =
        t.sink.kept.length + (Limited.bytes text).length := by
      rw [Limited.bytes_append, List.length_append, sink]
    by_cases all : ∀ room ∈ limit, (Limited.bytes (s.sink.text ++ text)).length ≤ room
    · -- There is room for the whole text, so the limited sink keeps up.
      have written : Sink.write t.sink text = _ := Limited.write_of_fits (by
        intro room limited
        rw [sink] at limited
        exact longer ▸ all room limited)
      rw [written, sink, ← Limited.bytes_append]
      exact .value ⟨env, unflushed, rfl, all⟩
    · -- The text fills the limited sink, and only the transcript takes the rest of it.
      simp only [Classical.not_forall, Nat.not_le] at all
      obtain ⟨room, limited, full⟩ := all
      have within : t.sink.kept.length ≤ room := by
        rw [sink]
        exact fits room limited
      have written : Sink.write t.sink text = _ :=
        Limited.write_of_full (by rw [sink]; exact limited) within (longer ▸ full)
      rw [written, sink, ← Limited.bytes_append]
      exact .cut ⟨rfl, rfl, room, limited, full, rfl⟩
  · -- What the transcript takes later lies beyond the room of the full sink.
    rintro s fault t ⟨reason, unflushed, room, limited, full, kept⟩
    refine ⟨reason, unflushed, room, limited, ?_⟩
    change room < (Limited.bytes (s.sink.text ++ text)).length ∧
      t.sink.kept = (Limited.bytes (s.sink.text ++ text)).take room
    rw [Limited.bytes_append, List.length_append, List.take_append_of_le_length (by omega)]
    exact ⟨by omega, kept⟩

theorem limitedTo_echoAll {names : String → Prop} {nodes : List Node}
    (expressions : ∀ node ∈ nodes, node.IsExpression names) :
    (limitedTo limit whenFull refusesFlush).Tracks (Node.echoAll nodes) (Node.echoAll nodes) := by
  induction nodes with
  | nil => exact .pure []
  | cons statement rest ih =>
      obtain ⟨expression, others⟩ := List.forall_mem_cons.mp expressions
      rw [Node.echoAll, Node.echoAll]
      refine (Tracks.eval_of_isExpression expression).bind fun value => ?_
      refine (Tracks.note _).bind fun _ => ?_
      refine (Tracks.echo limitedTo_write statement value).bind fun _ => ?_
      exact (ih others).bind fun _ => .pure _

/-- The whole run up to the flush: a source that does not parse writes nothing, and a parsed
program is a list of expressions. -/
theorem limitedTo_echoSource (source : String) :
    (limitedTo limit whenFull refusesFlush).Tracks (echoSource source) (echoSource source) := by
  unfold echoSource
  refine .ofExcept_bind (fun fault refused => ?_) fun tokens _ => ?_
  · change fault.stage ≠ .output
    rw [stage_of_scan refused]
    decide
  refine (Tracks.note _).bind fun _ => ?_
  refine .ofExcept_bind (fun fault refused => ?_) fun program parsed => ?_
  · change fault.stage ≠ .output
    rcases Reader.stage_of_read refused with stage | stage
    · rw [stage]
      decide
    · rw [stage]
      decide
  refine (Tracks.note _).bind fun _ => ?_
  obtain ⟨nodes, rfl, spelled⟩ := spellsAll_of_parse parsed
  have expressions : ∀ node ∈ nodes, node.IsExpression fun _ => True :=
    spelled.isExpression fun _ _ _ => trivial
  exact (limitedTo_echoAll expressions).bind fun _ => .pure _

theorem limitedTo_ends (source : String) (limit : Option Nat) (whenFull : WhenFull)
    (refusesFlush : Bool) :
    (limitedTo limit whenFull refusesFlush).Ends
      ((echoSource source).run (Session.start Transcript.empty))
      ((echoSource source).run (Session.start (Limited.empty limit whenFull refusesFlush))) :=
  (limitedTo_echoSource source).ends limitedTo_start

end Pairing

/-! ## The whole runs -/

theorem text_withFlush {α : Type} (ended : Except Fault α × Session Transcript) :
    (withFlush ended).2.sink.text = ended.2.sink.text := by
  obtain ⟨_ | _, _⟩ := ended
  · rfl
  · rfl

/-- A sink with room for so many bytes, which can be flushed. -/
theorem evaluate_limited (source : String) (limit : Nat) (whenFull : WhenFull) :
    let full := evaluate source Transcript.empty
    let out := Limited.bytes full.2.sink.text
    let cut := evaluate source (Limited.empty (some limit) whenFull false)
    cut.2.sink.kept = out.take limit ∧
      cut.1 = (if out.length ≤ limit then full.1 else .error (.output whenFull.reason)) ∧
      cut.2.sink.flushes = if out.length ≤ limit then full.2.sink.flushes else 0 := by
  have ends := Pairing.limitedTo_ends source (some limit) whenFull false
  simp only [evaluate_eq, text_withFlush]
  generalize (echoSource source).run (Session.start Transcript.empty) = full at ends ⊢
  generalize (echoSource source).run (Session.start (Limited.empty (some limit) whenFull false)) =
    cut at ends ⊢
  cases ends with
  | @value result s t paired =>
      obtain ⟨_, unflushed, sink, fits⟩ := paired
      have all : (Limited.bytes s.sink.text).length ≤ limit := fits limit rfl
      rw [List.take_of_length_le all, if_pos all, if_pos all]
      simp [withFlush, Sink.flush, Limited.flush, sink, unflushed]
  | @fault fault s t _ paired =>
      obtain ⟨_, unflushed, sink, fits⟩ := paired
      have all : (Limited.bytes s.sink.text).length ≤ limit := fits limit rfl
      rw [List.take_of_length_le all, if_pos all, if_pos all]
      simp [withFlush, sink, unflushed]
  | @cut result s fault t cut =>
      obtain ⟨rfl, unflushed, room, limited, beyond, kept⟩ := cut
      cases limited
      have some_left : ¬ (Limited.bytes s.sink.text).length ≤ limit := Nat.not_le.mpr beyond
      rw [if_neg some_left, if_neg some_left]
      exact ⟨kept, rfl, unflushed⟩

/-- A sink with room for everything, which cannot be flushed. -/
theorem evaluate_unflushable (source : String) (whenFull : WhenFull) :
    let full := evaluate source Transcript.empty
    let unflushed := evaluate source (Limited.empty none whenFull true)
    unflushed.2.sink.kept = Limited.bytes full.2.sink.text ∧
      ((∃ node, full.1 = .ok node ∧ unflushed.1 = .error (.output "flush refused")) ∨
        ∃ fault, fault.stage ≠ .output ∧ full.1 = .error fault ∧ unflushed.1 = .error fault) := by
  have ends := Pairing.limitedTo_ends source none whenFull true
  simp only [evaluate_eq, text_withFlush]
  generalize (echoSource source).run (Session.start Transcript.empty) = full at ends ⊢
  generalize (echoSource source).run (Session.start (Limited.empty none whenFull true)) =
    unflushed at ends ⊢
  cases ends with
  | @value result s t paired =>
      obtain ⟨_, _, sink, _⟩ := paired
      refine ⟨?_, .inl ⟨result, rfl, ?_⟩⟩
      · simp [withFlush, Sink.flush, Limited.flush, sink]
      · simp only [withFlush, Sink.flush, Limited.flush, sink, if_true]
        rfl
  | @fault fault s t shared paired =>
      obtain ⟨_, _, sink, _⟩ := paired
      refine ⟨?_, .inr ⟨fault, shared, rfl, rfl⟩⟩
      simp [withFlush, sink]
  | cut cut =>
      obtain ⟨_, _, _, limited, _⟩ := cut
      cases limited

/-- **A failing sink only cuts the output short.**  The room may end in the middle of a line or
of a character.  An output fault takes the place of the result exactly if the room ends
before the output does, or if the flush after a result fails. -/
theorem evaluate_into_failing_sink (source : String) (limit : Nat) (whenFull : WhenFull) :
    let full := evaluate source Transcript.empty
    let out := Limited.bytes full.2.sink.text
    let cut := evaluate source (Limited.empty (some limit) whenFull false)
    let unflushed := evaluate source (Limited.empty none whenFull true)
    cut.2.sink.kept = out.take limit ∧
      cut.1 = (if out.length ≤ limit then full.1 else .error (.output whenFull.reason)) ∧
      cut.2.sink.flushes = (if out.length ≤ limit then full.2.sink.flushes else 0) ∧
      unflushed.2.sink.kept = out ∧
      ((∃ reason, unflushed.1 = .error (.output reason)) ↔ ∃ node, full.1 = .ok node) ∧
      ((∃ node, full.1 = .ok node) ∨ unflushed.1 = full.1) := by
  intro full out cut unflushed
  obtain ⟨kept, result, flushes⟩ := evaluate_limited source limit whenFull
  obtain ⟨all, outcome⟩ := evaluate_unflushable source whenFull
  refine ⟨kept, result, flushes, all, ?_⟩
  rcases outcome with ⟨node, complete, refused⟩ | ⟨fault, inside, faulty, same⟩
  · exact ⟨⟨fun _ => ⟨node, complete⟩, fun _ => ⟨_, refused⟩⟩, .inl ⟨node, complete⟩⟩
  · refine ⟨⟨?_, ?_⟩, .inr (same.trans faulty.symm)⟩
    · rintro ⟨reason, output⟩
      cases same.symm.trans output
      exact absurd rfl inside
    · rintro ⟨node, complete⟩
      cases faulty.symm.trans complete

end ColonLisp
