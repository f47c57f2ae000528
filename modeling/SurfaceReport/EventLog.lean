import SurfaceReport.Fault
import SurfaceReport.Moment

/-!
# Events and who receives them

A run tells what it does by *events*, and leaves *diagnostics* for whoever looks into the program
itself. Events go to a receiver that may refuse one; a refused event ends the work at hand.
Diagnostics are never refused.

The receiver is a parameter of everything that records, so that the same walk can fill a list in
memory, or a file that a disk has no more room for.
-/

namespace SurfaceReport

/-! ## Events -/

inductive Level where
  | info
  | success
  | error
  deriving DecidableEq, Repr, Inhabited

namespace Level

def all : List Level := [info, success, error]

def tag : Level → String
  | info => "[INFO]"
  | success => "[SUCCESS]"
  | error => "[ERROR]"

def ofTag? (text : String) : Option Level :=
  all.find? (·.tag == text)

end Level

structure Event where
  level : Level
  message : String
  deriving DecidableEq, Repr, Inhabited

namespace Event

def info (message : String) : Event := ⟨.info, message⟩

/-- The event as a line of a run log, without the end of the line. -/
def line (e : Event) (time : Moment) : String :=
  .ofList time.lineText ++ " " ++ e.level.tag ++ " " ++ e.message

end Event

/-! ## Receivers -/

/-- A receiver of events with states in `σ`: what it answers to an event, and its state after. -/
structure EventSink (σ : Type) where
  record : Event → σ → Except Fault Unit × σ

namespace EventSink

def memory : EventSink (List Event) where
  record e events := (.ok (), events ++ [e])

/-- Keeps the first `count` events and refuses every later one. -/
def memoryUpTo (count : Nat) (refusal : Fault) : EventSink (List Event) where
  record e events :=
    if events.length < count then (.ok (), events ++ [e]) else (.error refusal, events)

end EventSink

/-! ## Work that records -/

/-- What recording work changes: the receiver's state, and the diagnostics so far. -/
structure Trail (σ : Type) where
  sink : σ
  diagnostics : List String := []

/-- Work that records events on its way and may end in a fault. -/
abbrev Recording (σ : Type) : Type → Type := ExceptT Fault (StateM (Trail σ))

namespace Recording

variable {σ α : Type}

/-- Hands one event to the receiver; a refusal ends the work. -/
def record (sink : EventSink σ) (e : Event) : Recording σ Unit :=
  ExceptT.mk fun trail =>
    let (answer, state) := sink.record e trail.sink
    (answer, { trail with sink := state })

def diagnose (lines : List String) : Recording σ Unit :=
  ExceptT.mk fun trail => (.ok (), { trail with diagnostics := trail.diagnostics ++ lines })

/-- Goes on with a result that is already there, or ends with its fault. -/
def ofExcept (result : Except Fault α) : Recording σ α :=
  ExceptT.mk fun trail => (result, trail)

/-- What the work results in and what it leaves behind, from a state of the receiver on. -/
def runFrom (work : Recording σ α) (state : σ) : Except Fault α × Trail σ :=
  (ExceptT.run work).run { sink := state }

end Recording

end SurfaceReport
