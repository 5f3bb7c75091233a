/-
# Sink -- where output goes

A sink takes texts in order and can be flushed; both may fail, with a reason, and a
sink that fails has still a state afterwards.  Two sinks are given: a `Transcript`
takes everything, and a `Limited` sink has room for so many bytes.
-/
set_option autoImplicit false

namespace ColonLisp

/-- A place where output goes. -/
class Sink (σ : Type) where
  write : σ → String → Except String Unit × σ
  flush : σ → Except String Unit × σ

/-! ## A sink that takes everything -/

/-- All that was written, and how often it was flushed. -/
structure Transcript where
  text : String
  flushes : Nat
deriving DecidableEq, Repr, Inhabited

/-- Nothing was written yet. -/
def Transcript.empty : Transcript := ⟨"", 0⟩

instance : Sink Transcript where
  write sink text := (.ok (), { sink with text := sink.text ++ text })
  flush sink := (.ok (), { sink with flushes := sink.flushes + 1 })

/-! ## A sink with limited room -/

/-- How a sink that has no room left meets the next byte. -/
inductive WhenFull where
  /-- It fails. -/
  | refuses
  /-- It takes no byte and does not fail, so the write cannot be completed. -/
  | stalls
deriving DecidableEq, Repr, Inhabited

/-- The reason why a write to a full sink fails. -/
def WhenFull.reason : WhenFull → String
  | refuses => "sink full"
  | stalls => "failed to write whole buffer"

/-- A sink that keeps so many bytes and no more. -/
structure Limited where
  /-- How many bytes there is room for in all; `none` if for all. -/
  limit : Option Nat
  whenFull : WhenFull
  /-- Whether flushing fails. -/
  refusesFlush : Bool
  kept : List UInt8
  flushes : Nat
deriving DecidableEq, Repr, Inhabited

namespace Limited

/-- The bytes of a text. -/
def bytes (text : String) : List UInt8 := text.toUTF8.data.toList

theorem bytes_append (text more : String) : bytes (text ++ more) = bytes text ++ bytes more := by
  simp [bytes]

theorem bytes_inj {text other : String} (same : bytes text = bytes other) : text = other :=
  String.toByteArray_inj.mp (ByteArray.ext (Array.toList_inj.mp same))

/-- An empty sink. -/
def empty (limit : Option Nat) (whenFull : WhenFull) (refusesFlush : Bool) : Limited :=
  ⟨limit, whenFull, refusesFlush, [], 0⟩

/-- The part of some bytes that there is room for. -/
def fitting (sink : Limited) (bytes : List UInt8) : List UInt8 :=
  match sink.limit with
  | none => bytes
  | some limit => bytes.take (limit - sink.kept.length)

/-- Keeps what there is room for, and fails if that is not all.  The room may end in
the middle of a character. -/
def write (sink : Limited) (text : String) : Except String Unit × Limited :=
  let all := bytes text
  let taken := sink.fitting all
  (if taken.length = all.length then .ok () else .error sink.whenFull.reason,
    { sink with kept := sink.kept ++ taken })

/-- Counts the flush, and fails if the sink refuses it. -/
def flush (sink : Limited) : Except String Unit × Limited :=
  (if sink.refusesFlush then .error "flush refused" else .ok (),
    { sink with flushes := sink.flushes + 1 })

instance : Sink Limited := ⟨write, flush⟩

end Limited

end ColonLisp
