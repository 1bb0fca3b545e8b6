import EventDispatcher.Queue.Status

/-!
# Queue operations as their callers see them

An `OpView` is what matters of a thread's program point inside a queue to the caller of
its operation: whether the event of a push has been constructed from the caller's, has
entered the queue or never will, which event a pop has taken, how many events
`close_and_discard` has destroyed.  `QueueMove` lists what one atomic step may do to the
contents of the queue and to the view of the thread that makes it.  Both queue policies
move in no other way.
-/

namespace EventDispatcher

/-- A thread in a queue operation. -/
inductive OpView (E : Type)
  | outside (last : Option (QueueResult E))
  /-- a push that is not decided; `built` says whether the caller's event has been moved
  or copied from -/
  | push (event : E) (built : Bool)
  /-- a push that is going to return `outcome` -/
  | pushed (outcome : PushOutcome)
  | pop (taken : Option E)
  | close (discard : Bool) (count : ℕ)
  /-- inside the stop callback of another thread's operation -/
  | stopping
  deriving DecidableEq

namespace OpView

variable {E : Type}

/-- How an operation begins. -/
def start : QueueOp E → OpView E
  | .push _ event _ => .push event false
  | .pop _ _ => .pop none
  | .close => .close false 0
  | .closeAndDiscard => .close true 0

/-- The event that a step has moved or copied from its caller. -/
def consumed : OpView E → OpView E → List E
  | .push event false, .push _ true => [event]
  | .push event false, .pushed (.returned .success) => [event]
  | _, _ => []

end OpView

/-- What one step inside an operation may do to the contents of the queue. -/
inductive QueueMove {E : Type} (xs : List E) : OpView E → List E → OpView E → Prop
  | quiet (v : OpView E) : QueueMove xs v xs v
  | build (event : E) : QueueMove xs (.push event false) xs (.push event true)
  | enter (event : E) (built : Bool) :
      QueueMove xs (.push event built) (xs ++ [event]) (.pushed (.returned .success))
  | fail (event : E) {outcome : PushOutcome} (hfail : outcome ≠ .returned .success) :
      QueueMove xs (.push event false) xs (.pushed outcome)
  | refuse (event : E) {outcome : PushOutcome} (hfail : outcome ≠ .returned .success) :
      QueueMove xs (.push event false) xs (.outside (some (.push outcome)))
  | pushReturn (outcome : PushOutcome) :
      QueueMove xs (.pushed outcome) xs (.outside (some (.push outcome)))
  | take {event : E} {rest : List E} (hhead : xs = event :: rest) :
      QueueMove xs (.pop none) rest (.pop (some event))
  | popReturn (event : E) :
      QueueMove xs (.pop (some event)) xs (.outside (some (.pop (.success event))))
  | popFail {result : PopResult E} (hfail : ∀ event, result ≠ .success event) :
      QueueMove xs (.pop none) xs (.outside (some (.pop result)))
  | discard {gone rest : List E} (hsplit : xs = gone ++ rest) (count : ℕ) :
      QueueMove xs (.close true count) rest (.close true (count + gone.length))
  | closeReturn (count : ℕ) : QueueMove xs (.close false count) xs (.outside (some .closed))
  | discardReturn (count : ℕ) :
      QueueMove xs (.close true count) xs (.outside (some (.discarded count)))
  | stopReturn (last : Option (QueueResult E)) : QueueMove xs .stopping xs (.outside last)

end EventDispatcher
