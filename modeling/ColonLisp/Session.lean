/-
# Session -- the state of an interpreter and the actions on it

A session has an environment, a sink for the output, and the events so far.  An
action on a session gives a result or a fault; what it did to the session before a
fault stays done.
-/
import ColonLisp.Environment
import ColonLisp.Sink

set_option autoImplicit false

namespace ColonLisp

/-- What an interpreter notes about its work. -/
inductive Event where
  /-- A source was cut into so many tokens. -/
  | tokens (count : Nat)
  /-- A source was parsed. -/
  | nodes
  /-- A statement was evaluated. -/
  | evaluated (source result : Node)
  /-- A scope was entered; there are so many now. -/
  | entered (depth : Nat)
  /-- A scope was left; there are so many now. -/
  | exited (depth : Nat)
  /-- A name was bound in the innermost of so many scopes. -/
  | bound (name : String) (depth : Nat)
deriving Repr, Inhabited

/-- How closely the work has to be followed for an event to be shown. -/
def Event.level : Event → String
  | tokens _ | nodes | evaluated .. => "debug"
  | entered _ | exited _ | bound .. => "trace"

/-- What an event says. -/
def Event.message : Event → String
  | tokens _ => "tokens"
  | nodes => "nodes"
  | evaluated .. => "evaluated top-level expression"
  | entered _ => "entered scope"
  | exited _ => "exited scope"
  | bound .. => "bind"

/-- The state of an interpreter. -/
structure Session (σ : Type) where
  env : Environment
  sink : σ
  events : Array Event

/-- An action on a session, with a result or a fault. -/
abbrev Run (σ α : Type) := ExceptT Fault (StateM (Session σ)) α

namespace Session

variable {σ : Type}

/-- A session with no names bound. -/
def start (sink : σ) : Session σ := ⟨.empty, sink, #[]⟩

/-- Notes an event. -/
def note (session : Session σ) (event : Event) : Session σ :=
  { session with events := session.events.push event }

/-- Enters a scope. -/
def enter (session : Session σ) : Session σ :=
  { session with env := session.env.enter }.note (.entered session.env.enter.depth)

/-- Leaves a scope.  The global scope is not left, and then there is nothing to note. -/
def exit (session : Session σ) : Session σ where
  env := session.env.exit
  sink := session.sink
  events :=
    if 1 < session.env.depth then session.events.push (.exited session.env.exit.depth)
    else session.events

/-- Binds a name in the innermost scope. -/
def define (session : Session σ) (name : String) (value : Node) : Session σ :=
  { session with env := session.env.define name value }.note (.bound name session.env.depth)

end Session

namespace Run

variable {σ α : Type}

/-- A result or fault that does not touch the session. -/
def ofExcept (result : Except Fault α) : Run σ α := ExceptT.mk (pure result)

/-- Notes an event. -/
def note (event : Event) : Run σ Unit := modify (·.note event)

/-- Binds a name in the innermost scope. -/
def define (name : String) (value : Node) : Run σ Unit := modify (·.define name value)

/-- What a name is bound to. -/
def lookup (name : String) : Run σ Node := do ofExcept ((← get).env.get name)

/-- An action on the sink; its failure is a fault of the output. -/
def onSink (action : σ → Except String Unit × σ) : Run σ Unit :=
  ExceptT.mk fun session =>
    let (outcome, sink) := action session.sink
    (outcome.mapError Fault.output, { session with sink := sink })

/-- Writes a text. -/
def write [Sink σ] (text : String) : Run σ Unit := onSink (Sink.write · text)

/-- Flushes the sink. -/
def flush [Sink σ] : Run σ Unit := onSink Sink.flush

/-- An action inside a new scope, which is left however the action ends. -/
def inScope (action : Run σ α) : Run σ α :=
  ExceptT.mk fun session =>
    let (result, after) := action.run session.enter
    (result, after.exit)

end Run

end ColonLisp
