import HopfieldDescent.Event

/-!
# Observers

An observer is a function with a state: it takes an event and may answer with an action.  Observers
that only need an objective or a stationarity from an event, and that only want to stop, are written
against the three capability classes and work with any events and actions that have them.
-/

namespace HopfieldDescent

/-- A function on events that keeps a state of type `σ` and may answer with an action. -/
structure Observer (σ ε α : Type) where
  /-- The answer to an event, and the state after it. -/
  observe : σ → ε → Option α × σ

/-! ## Capabilities -/

/-- Events that may carry an objective. -/
class HasObjective (ε : Type) (R : outParam Type) where
  /-- The objective of an event that has one. -/
  objective? : ε → Option R

/-- Events that may carry a measure of stationarity. -/
class HasStationarity (ε : Type) (R : outParam Type) where
  /-- The stationarity of an event that has one. -/
  stationarity? : ε → Option R

/-- Actions among which there is one that ends a run. -/
class CanStopEarly (α : Type) where
  /-- The action that ends a run. -/
  stopEarly : α

instance (R : Type) : HasObjective (Event R) R := ⟨Event.objective?⟩

instance (R : Type) : HasStationarity (Event R) R := ⟨Event.stationarity?⟩

instance : CanStopEarly Action := ⟨.stopEarly⟩

/-! ## Simple observers -/

namespace Observer

variable {σ ε α R : Type}

/-- Never answers. -/
def silent : Observer Unit ε α := ⟨fun _ _ => (none, ())⟩

/-- Ends a run on every event with a property. -/
def stopWhen [CanStopEarly α] (holds : ε → Bool) : Observer Unit ε α :=
  ⟨fun _ event => (if holds event then some CanStopEarly.stopEarly else none, ())⟩

/-- Ends a run once the stationarity is below a tolerance. -/
def goodEnough [Scalar R] [HasStationarity ε R] [CanStopEarly α] (tolerance : R) :
    Observer Unit ε α :=
  stopWhen fun event => (HasStationarity.stationarity? event).any fun s => decide (s < tolerance)

/-- Ends a run at the first step with at least the given number. -/
def stopAt (number : Nat) : Observer Unit (Event R) Action :=
  stopWhen fun event => event.number?.any fun n => decide (number ≤ n)

/-- Ends a run as soon as the duals are known. -/
def stopOnDuals : Observer Unit (Event R) Action :=
  stopWhen fun event => event.number?.isNone

/-- Another observer, with a record of every event and the answer to it. -/
def recording (inner : Observer σ ε α) : Observer (σ × Array (ε × Option α)) ε α :=
  ⟨fun (state, record) event =>
    let (answer, state) := inner.observe state event
    (answer, (state, record.push (event, answer)))⟩

end Observer

end HopfieldDescent
