import SmallWorld.Cloud

/-!
# The journal

Building an index leaves a journal of events.  A computation that writes to
it is `Traced`: it has events, in the order in which they were written, and
an outcome.  Events written before a fault stay in the journal.

`Traced.outcome` turns sequences of traced computations into sequences of
plain ones, so statements about results need not mention the journal.
-/

namespace SmallWorld

inductive Event where
  | created
      (dimension branching constructionWidth searchWidth levels : Nat)
  | inserting (id : PointId) (level : Nat)
  | firstPoint (id : PointId) (level : Nat)
  | newEntryPoint (id : PointId) (level previousTop : Nat)
  | reselected (owner : PointId) (level kept : Nat)
  deriving DecidableEq, Repr

namespace Event

/-- How closely one has to look at a journal to see an entry. -/
inductive Severity where
  | debug
  | trace
  deriving DecidableEq, Repr

def Severity.label : Severity → String
  | .debug => "DEBUG"
  | .trace => "TRACE"

def severity : Event → Severity
  | .created .. => .debug
  | .inserting .. => .trace
  | .firstPoint .. => .debug
  | .newEntryPoint .. => .debug
  | .reselected .. => .trace

def message : Event → String
  | .created .. => "created HNSW index"
  | .inserting .. => "inserting point"
  | .firstPoint .. => "first point became the entry point"
  | .newEntryPoint .. => "new entry point"
  | .reselected .. => "re-pruned full neighbor run"

/-- The numbers of an entry with their labels. -/
def fields : Event → List (String × Nat)
  | .created dimension branching constructionWidth searchWidth levels =>
      [("dimension", dimension), ("m", branching),
        ("ef_construction", constructionWidth), ("ef_search", searchWidth),
        ("levels", levels)]
  | .inserting id level => [("id", id), ("level", level)]
  | .firstPoint id level => [("id", id), ("level", level)]
  | .newEntryPoint id level previousTop =>
      [("id", id), ("level", level), ("previous_max_level", previousTop)]
  | .reselected owner level kept =>
      [("owner", owner), ("level", level), ("kept", kept)]

end Event

structure Traced (α : Type) where
  events : List Event
  outcome : Except Failure α

namespace Traced

variable {α β : Type}

def ofOutcome (outcome : Except Failure α) : Traced α where
  events := []
  outcome

def record (event : Event) : Traced Unit where
  events := [event]
  outcome := .ok ()

/-- Go on with the result of a computation, if it has one. -/
def andThen (first : Traced α) (next : α → Traced β) : Traced β :=
  match first.outcome with
  | .error failure => { events := first.events, outcome := .error failure }
  | .ok value =>
      let second := next value
      { events := first.events ++ second.events, outcome := second.outcome }

instance : Monad Traced where
  pure value := ofOutcome (.ok value)
  bind := andThen

instance : MonadLift (Except Failure) Traced where
  monadLift := ofOutcome

instance : MonadLift (Except Refusal) Traced where
  monadLift result := ofOutcome (result.mapError .refused)

instance : MonadLift (Except Fault) Traced where
  monadLift result := ofOutcome (result.mapError .faulted)

@[simp]
theorem outcome_pure (value : α) :
    (pure value : Traced α).outcome = .ok value :=
  rfl

@[simp]
theorem outcome_bind (first : Traced α) (next : α → Traced β) :
    (first >>= next).outcome =
      first.outcome >>= fun value => (next value).outcome := by
  change (andThen first next).outcome = _
  unfold andThen
  cases first.outcome <;> rfl

@[simp]
theorem outcome_record (event : Event) : (record event).outcome = .ok () :=
  rfl

@[simp]
theorem outcome_ofOutcome (outcome : Except Failure α) :
    (ofOutcome outcome).outcome = outcome :=
  rfl

end Traced

end SmallWorld
