import Mathlib

/-!
# Outcomes of queue operations

Both queue policies report through `queue_status` and `pop_result`.  A
`PopResult` carries its event exactly when its status is `success`, so the
invalid combinations of the source's two fields cannot be written down.
-/

namespace EventDispatcher

/-- `queue_status`. -/
inductive QueueStatus
  | success
  | full
  | empty
  | closed
  | stopped
  | timeout
  deriving DecidableEq, Repr

/-- `pop_result<Event>`: a status, with the transferred event on `success`. -/
inductive PopResult (E : Type)
  | success (event : E)
  | empty
  | closed
  | stopped
  deriving DecidableEq, Repr

/-- `pop_result::status`. -/
def PopResult.status {E : Type} : PopResult E → QueueStatus
  | .success _ => .success
  | .empty => .empty
  | .closed => .closed
  | .stopped => .stopped

/-- How a push-like call ends: with a status, or by the exception of the Event
constructor. -/
inductive PushOutcome
  | returned (status : QueueStatus)
  | threw
  deriving DecidableEq, Repr

/-- The four push entry points of a queue policy. -/
inductive PushKind
  | tryPush
  | tryEmplace
  | waitPush
  | waitPushUntil
  deriving DecidableEq, Repr

/-- What a queue operation hands back to its caller. -/
inductive QueueResult (E : Type)
  | push (outcome : PushOutcome)
  | pop (result : PopResult E)
  | closed
  | discarded (count : ℕ)
  deriving DecidableEq, Repr

/-- The operations of a queue policy that change it (`concurrent_queue` and
`emplacing_queue`).  `stop` says whether the caller's stop token has already
been asked to stop when the call begins. -/
inductive QueueOp (E : Type)
  | push (kind : PushKind) (event : E) (stop : Bool)
  | pop (wait : Bool) (stop : Bool)
  | close
  | closeAndDiscard
  deriving DecidableEq, Repr

/-- Whether the operation's stop token is already requested at its start. -/
def QueueOp.stop {E : Type} : QueueOp E → Bool
  | .push _ _ stop => stop
  | .pop _ stop => stop
  | .close => false
  | .closeAndDiscard => false

end EventDispatcher
