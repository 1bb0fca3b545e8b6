import EventDispatcher.Dispatcher.QueueViews
import EventDispatcher.Dispatcher.Threads

/-!
# The accounts of the dispatcher

Where every event and every publication number is.  An event that the queue has accepted is
in the queue, in the hands of a worker, in a batch that has been broadcast, or destroyed; a
number that has been given out is in a publication under way or among those that have
returned.  `Books` is what the history and the metrics say of this, `Account` what one
thread has in its hands, and `Booked` how a step moves something from one to the other.
-/

namespace EventDispatcher

open Transition

variable {T E : Type}

namespace OpView

variable {A : Type}

/-- The event that a pop has taken out of the queue. -/
def popped : OpView A → Multiset A
  | .pop (some event) => {event}
  | .outside (some (.pop (.success event))) => {event}
  | _ => 0

/-- The event of a push is in the queue. -/
def entered : OpView A → Bool
  | .pushed (.returned .success) => true
  | .outside (some (.push (.returned .success))) => true
  | _ => false

/-- What `close_and_discard` has destroyed. -/
def dropped : OpView A → ℕ
  | .close true count => count
  | .outside (some (.discarded count)) => count
  | _ => 0

end OpView

/-- What a thread has in its hands. -/
structure Account (E : Type) where
  /-- taken out of the queue, and not yet in the batch -/
  popped : Multiset (Publication E) := 0
  /-- in the batch, and not yet broadcast -/
  batch : Multiset (Publication E) := 0
  /-- the number of its publication, once the event is in the queue -/
  entered : Multiset ℕ := 0
  /-- the number of its publication -/
  pending : Multiset ℕ := 0
  /-- destroyed, and not yet counted -/
  dropped : ℕ := 0

/-- What the frame on top of a stack has in its hands, by the view of its queue operation. -/
def Frame.account (v : OpView (Publication E)) : Frame T E → Account E
  | .worker (.callPop batch) => { batch := ↑batch }
  | .worker (.popping batch) => { popped := v.popped, batch := ↑batch }
  | .worker (.acquire batch) => { batch := ↑batch }
  | .publish event _ _ _ .pushing =>
      { entered := if v.entered then {event.id} else 0, pending := {event.id} }
  | .publish event _ _ _ (.count status) =>
      { entered := if status = .success then {event.id} else 0, pending := {event.id} }
  | .publish event _ _ _ _ => { pending := {event.id} }
  | .shutdown _ .closing => { dropped := v.dropped }
  | .shutdown _ (.countDropped discarded) => { dropped := discarded }
  | _ => {}

/-- The view of a queue operation that the frame on top of the stack has under way. -/
def Frame.Fits (v : OpView (Publication E)) : Frame T E → Prop
  | .worker (.popping _) =>
      (∃ taken, v = .pop taken) ∨ ∃ result, v = .outside (some (.pop result))
  | .publish event _ _ _ .pushing =>
      (∃ built, v = .push event built) ∨ ∃ outcome, v = .pushed outcome ∨
        v = .outside (some (.push outcome))
  | .requestStop _ true => v = .stopping ∨ ∃ last, v = .outside last
  | .shutdown policy .closing =>
      (∃ count, v = .close (policy = .discard) count) ∨
        (policy = .drain ∧ v = .outside (some .closed)) ∨
        ∃ count, policy = .discard ∧ v = .outside (some (.discarded count))
  | _ => ∃ last, v = .outside last

/-- The publications that have returned `success`. -/
def successes (returned : List (ℕ × PushOutcome)) : Multiset ℕ :=
  ↑((returned.filter fun r => r.2 = .returned .success).map Prod.fst)

/-- The publications that have returned another status. -/
def refusals (returned : List (ℕ × PushOutcome)) : Multiset ℕ :=
  ↑((returned.filter fun r => r.2 ≠ .returned .success ∧ r.2 ≠ .threw).map Prod.fst)

/-- What the queue, the history and the metrics say of the events. -/
structure Books (T E : Type) where
  contents : List (Publication E)
  accepted : List (Publication E)
  dequeued : List (T × Publication E)
  batches : List (T × List (Publication E))
  destroyed : List (Publication E)
  begun : ℕ
  returned : List (ℕ × PushOutcome)
  metrics : DispatcherMetrics

namespace Books

variable (b : Books T E)

/-- The events that workers have put into their batches. -/
def taken : Multiset (Publication E) := b.dequeued.map Prod.snd

/-- The events that have been broadcast. -/
def broadcast : Multiset (Publication E) := b.batches.flatMap Prod.snd

/-- The accepted events that are in nobody's hands. -/
def settled : Multiset (Publication E) :=
  b.taken + (b.destroyed : Multiset (Publication E)) + (b.contents : Multiset (Publication E))

/-- The publications whose events the queue has accepted. -/
def acceptedIds : Multiset ℕ := b.accepted.map Publication.id

/-- The publications that have returned. -/
def returnedIds : Multiset ℕ := b.returned.map Prod.fst

end Books

/-- The books, read off what the threads share. -/
@[simps]
def DispatcherMem.books {Q : QueuePolicy T (Publication E)} (m : DispatcherMem Q) : Books T E where
  contents := Q.contents m.queue
  accepted := m.history.accepted
  dequeued := m.history.dequeued
  batches := m.history.batches
  destroyed := m.history.destroyed
  begun := m.history.begun
  returned := m.history.returned
  metrics := m.metrics

/-- What the books and the hands of the moving thread lose elsewhere they gain here. -/
structure Booked (b : Books T E) (a : Account E) (b' : Books T E) (a' : Account E) : Prop where
  transit : (b'.accepted : Multiset (Publication E)) + (b.settled + a.popped) =
    (b.accepted : Multiset (Publication E)) + (b'.settled + a'.popped)
  batches : b'.taken + (b.broadcast + a.batch) = b.taken + (b'.broadcast + a'.batch)
  entered : b'.acceptedIds + (successes b.returned + a.entered) =
    b.acceptedIds + (successes b'.returned + a'.entered)
  pending : Multiset.range b'.begun + (b.returnedIds + a.pending) =
    Multiset.range b.begun + (b'.returnedIds + a'.pending)
  dropped : b'.metrics.dropped + UInt64.ofNat (b.destroyed.length + a'.dropped) =
    b.metrics.dropped + UInt64.ofNat (b'.destroyed.length + a.dropped)
  accepted : b'.metrics.accepted + UInt64.ofNat (successes b.returned).card =
    b.metrics.accepted + UInt64.ofNat (successes b'.returned).card
  rejected : b'.metrics.rejected + UInt64.ofNat (refusals b.returned).card =
    b.metrics.rejected + UInt64.ofNat (refusals b'.returned).card

/-- A step that does not touch the books. -/
theorem Booked.same {b b' : Books T E} {a a' : Account E} (hb : b' = b) (ha : a' = a) :
    Booked b a b' a' := by
  subst hb ha
  exact ⟨rfl, rfl, rfl, rfl, rfl, rfl, rfl⟩

section Outcomes

variable (returned : List (ℕ × PushOutcome)) (id : ℕ)

/-- One more publication has returned, among the successes. -/
@[simp]
theorem successes_append (outcome : PushOutcome) :
    successes (returned ++ [(id, outcome)]) =
      successes returned + if outcome = .returned .success then {id} else 0 := by
  unfold successes
  rw [List.filter_append, List.map_append, ← Multiset.coe_add]
  split <;> simp_all

/-- One more publication has returned, among the refusals. -/
@[simp]
theorem refusals_append (outcome : PushOutcome) :
    refusals (returned ++ [(id, outcome)]) = refusals returned +
      if outcome ≠ .returned .success ∧ outcome ≠ .threw then {id} else 0 := by
  unfold refusals
  rw [List.filter_append, List.map_append, ← Multiset.coe_add]
  split <;> simp_all

end Outcomes

section Frames

variable [DecidableEq T] {Q : QueuePolicy T (Publication E)} {M : QueueModel Q} {setup : Setup T}
  {flag : Bool} {t : T} {m m' : DispatcherMem Q} {q q' : Q.Loc} {contexts contexts' : Contexts}
  {f : Frame T E} {f' : Option (Frame T E)}

/-- A view that its thread has just been given. -/
theorem QueueModel.outside_of_idle (M : QueueModel Q) {result : QueueResult (Publication E)}
    (hidle : Q.idle q = true) (hlast : Q.last q = some result) :
    M.view q = .outside (some result) := by
  rw [(M.idle_iff q).mp hidle, hlast]

/-- What the next frame has in its hands; nothing, if the frame has returned. -/
def nextAccount (v : OpView (Publication E)) : Option (Frame T E) → Account E
  | some f => f.account v
  | none => {}

/-- **Step lemma for a frame**: the view fits the frame again. -/
theorem FrameStep.fits (h : FrameStep setup flag t m q contexts f m' q' contexts' f')
    (hfits : f.Fits (M.view q)) :
    (∀ g ∈ f', g.Fits (M.view q')) ∧ (f' = none → ∃ last, M.view q' = .outside last) := by
  cases h with
  | callPop batch hstep =>
      refine ⟨?_, by simp⟩
      rintro g ⟨⟩
      exact .inl ⟨none, (M.call hstep).1⟩
  | publishCall event kind stop rest hstep =>
      refine ⟨?_, by simp⟩
      rintro g ⟨⟩
      exact .inl ⟨false, (M.call hstep).1⟩
  | callClose policy hstep =>
      refine ⟨?_, by simp⟩
      rintro g ⟨⟩
      refine .inl ⟨0, ?_⟩
      rw [(M.call hstep).1]
      cases policy <;> rfl
  | stopIssued target htarget hstep =>
      refine ⟨?_, by simp⟩
      rintro g ⟨⟩
      exact (M.requestStop hstep).1
  | poppedMore batch hidle hlast | poppedLast batch hidle hlast | batchEnded batch hidle hlast
  | popAgain hidle hlast | publishReturned _ _ _ _ hidle hlast | closed hidle hlast
  | discarded hidle hlast =>
      refine ⟨?_, by simp⟩
      rintro g ⟨⟩
      exact ⟨_, M.outside_of_idle hidle hlast⟩
  | workerDone hidle hlast | publishThrew _ _ _ _ hidle hlast =>
      exact ⟨by simp, fun _ => ⟨_, M.outside_of_idle hidle hlast⟩⟩
  | stopReturned target issued hidle =>
      refine ⟨by simp, fun _ => ?_⟩
      cases issued with
      | true => exact ⟨_, (M.idle_iff q).mp (hidle rfl)⟩
      | false => exact hfits
  | invoke hframe hstep =>
      refine ⟨?_, by simp⟩
      rintro g ⟨⟩
      cases hframe <;> exact hfits
  | stop hframe hstep =>
      refine ⟨?_, by simp⟩
      rintro g ⟨⟩
      cases hframe <;> exact hfits
  | _ =>
      refine ⟨?_, fun _ => ?_⟩
      · intro g hg
        cases hg <;> exact hfits
      · exact hfits

omit [DecidableEq T] in
/-- A publication returns. -/
theorem Booked.returned {b : Books T E} {a : Account E} {begun : ℕ} {metrics : DispatcherMetrics}
    (id : ℕ) (outcome : PushOutcome) (pending : Multiset ℕ)
    (hpending : Multiset.range begun + a.pending = Multiset.range b.begun + ({id} + pending))
    (hentered : a.entered = if outcome = .returned .success then {id} else 0)
    (haccepted : metrics.accepted = b.metrics.accepted +
      if outcome = .returned .success then 1 else 0)
    (hrejected : metrics.rejected = b.metrics.rejected +
      if outcome ≠ .returned .success ∧ outcome ≠ .threw then 1 else 0)
    (hdropped : metrics.dropped = b.metrics.dropped) :
    Booked b a
      { b with
        begun := begun
        returned := b.returned ++ [(id, outcome)]
        metrics := metrics }
      { a with
        entered := 0
        pending := pending } where
  transit := rfl
  batches := rfl
  entered := by
    simp only [successes_append, hentered, add_zero]
    rfl
  pending := by
    simp only [Books.returnedIds, List.map_append, ← Multiset.coe_add, List.map_cons,
      List.map_nil, Multiset.coe_singleton]
    change Multiset.range begun + (b.returnedIds + a.pending) =
      Multiset.range b.begun + (b.returnedIds + {id} + pending)
    calc Multiset.range begun + (b.returnedIds + a.pending)
        = b.returnedIds + (Multiset.range begun + a.pending) := by abel
      _ = b.returnedIds + (Multiset.range b.begun + ({id} + pending)) := by rw [hpending]
      _ = Multiset.range b.begun + (b.returnedIds + {id} + pending) := by abel
  dropped := by rw [hdropped]
  accepted := by
    simp only [successes_append, haccepted, Multiset.card_add]
    split <;> simp [UInt64.ofNat_add]
    grind
  rejected := by
    simp only [refusals_append, hrejected, Multiset.card_add]
    split <;> simp [UInt64.ofNat_add]
    grind

omit [DecidableEq T] in
/-- A step of the queue that keeps its contents keeps the books. -/
theorem books_queue {qm : Q.Mem} (h : Q.contents qm = Q.contents m.queue) :
    DispatcherMem.books { m with queue := qm } = m.books := by
  simp [DispatcherMem.books, h]

omit [DecidableEq T] in
/-- `count_status` counts the status on one side. -/
theorem countStatus_metrics (status : QueueStatus) :
    (m.countStatus status).metrics.accepted =
        m.metrics.accepted + (if status = .success then 1 else 0) ∧
      (m.countStatus status).metrics.rejected =
        m.metrics.rejected + (if status = .success then 0 else 1) ∧
      (m.countStatus status).metrics.dropped = m.metrics.dropped := by
  unfold DispatcherMem.countStatus
  split <;> simp

omit [DecidableEq T] in
/-- The books after a status has been counted. -/
theorem books_returned (id : ℕ) (status : QueueStatus) :
    DispatcherMem.books ((m.countStatus status).recordPublication id (.returned status)) =
      { m.books with
        returned := m.books.returned ++ [(id, .returned status)]
        metrics := (m.countStatus status).metrics } := by
  simp [DispatcherMem.books]

omit [DecidableEq T] in
/-- The begin of a publication is entered in the books. -/
theorem DispatcherMem.books_beginPublication :
    m.beginPublication.books = { m.books with begun := m.books.begun + 1 } :=
  rfl

omit [DecidableEq T] in
/-- A worker puts the event that it has popped into its batch. -/
theorem Booked.dequeue (b : Books T E) (t : T) (batch : List (Publication E))
    (event : Publication E) :
    Booked b { popped := {event}, batch := ↑batch }
      { b with dequeued := b.dequeued ++ [(t, event)] } { batch := ↑(batch ++ [event]) } where
  transit := by
    simp only [Books.settled, Books.taken, List.map_append, ← Multiset.coe_add, List.map_cons,
      List.map_nil, Multiset.coe_singleton]
    abel
  batches := by
    simp only [Books.broadcast, Books.taken, List.map_append, ← Multiset.coe_add, List.map_cons,
      List.map_nil, Multiset.coe_singleton]
    abel
  entered := rfl
  pending := rfl
  dropped := rfl
  accepted := rfl
  rejected := rfl

omit [DecidableEq T] in
/-- A worker broadcasts its batch. -/
theorem Booked.broadcast (b : Books T E) (t : T) (batch : List (Publication E)) :
    Booked b { batch := ↑batch } { b with batches := b.batches ++ [(t, batch)] } {} where
  transit := rfl
  batches := by
    simp only [Books.broadcast, Books.taken, List.flatMap_append, List.flatMap_cons,
      List.flatMap_nil, List.append_nil, ← Multiset.coe_add]
    abel
  entered := rfl
  pending := rfl
  dropped := rfl
  accepted := rfl
  rejected := rfl

/-- **Step lemma for a frame**: it moves what it has in its hands. -/
theorem FrameStep.booked (h : FrameStep setup flag t m q contexts f m' q' contexts' f')
    (hfits : f.Fits (M.view q)) :
    Booked m.books (f.account (M.view q)) m'.books (nextAccount (M.view q') f') := by
  cases h with
  | callPop batch hstep =>
      obtain ⟨hview, _, hcontents, _⟩ := M.call hstep
      refine .same (books_queue hcontents) ?_
      rw [hview]
      rfl
  | poppedMore batch hidle hlast | poppedLast batch hidle hlast =>
      rw [M.outside_of_idle hidle hlast]
      exact .dequeue m.books t batch _
  | batchEnded batch hidle hlast hresult =>
      rw [M.outside_of_idle hidle hlast]
      refine .same rfl ?_
      rename_i result
      cases result with
      | success event => exact absurd rfl (hresult event)
      | _ => rfl
  | popAgain hidle hlast =>
      rw [M.outside_of_idle hidle hlast]
      exact .same rfl rfl
  | workerDone hidle hlast hresult =>
      rw [M.outside_of_idle hidle hlast]
      rcases hresult with rfl | rfl <;> exact .same rfl rfl
  | acquireNone => exact .broadcast m.books t []
  | acquire event events => exact .broadcast m.books t (event :: events)
  | publishOpen event kind stop rest | publishRefused event kind stop rest => exact .same rfl rfl
  | publishCall event kind stop rest hstep =>
      obtain ⟨hview, _, hcontents, _⟩ := M.call hstep
      refine .same (books_queue hcontents) ?_
      rw [hview]
      rfl
  | publishReturned event kind stop rest hidle hlast =>
      rw [M.outside_of_idle hidle hlast]
      refine .same rfl ?_
      rename_i status
      cases status <;> rfl
  | publishThrew event kind stop rest hidle hlast =>
      rw [M.outside_of_idle hidle hlast]
      exact .returned event.id .threw 0 rfl rfl (by simp) (by simp) rfl
  | publishCounted event kind stop rest status hlast =>
      obtain ⟨haccepted, hrejected, hdropped⟩ := countStatus_metrics (m := m) status
      rw [books_returned]
      exact .returned event.id (.returned status) 0 rfl (by simp [Frame.account])
        (by simpa using haccepted) (by simpa using hrejected) hdropped
  | publishNext event kind stop payload rest =>
      obtain ⟨haccepted, hrejected, hdropped⟩ := countStatus_metrics (m := m) .success
      rw [DispatcherMem.books_beginPublication, books_returned]
      refine .returned event.id (.returned .success) {m.history.begun} ?_ (by simp [Frame.account])
        (by simpa using haccepted) (by simpa using hrejected) hdropped
      simp only [Frame.account, Multiset.range_succ, DispatcherMem.books_begun]
      rw [← Multiset.singleton_add]
      abel
  | stopIssued target htarget hstep => exact .same (books_queue (M.requestStop hstep).2) rfl
  | callClose policy hstep =>
      obtain ⟨hview, _, hcontents, _⟩ := M.call hstep
      refine .same (books_queue hcontents) ?_
      rw [hview]
      cases policy <;> rfl
  | closed hidle hlast | discarded hidle hlast =>
      rw [M.outside_of_idle hidle hlast]
      exact .same rfl rfl
  | countDropped policy discarded =>
      refine ⟨rfl, rfl, rfl, rfl, ?_, rfl, rfl⟩
      simp [DispatcherMem.books, Frame.account, nextAccount, UInt64.ofNat_add]
      grind
  | deactivate | deactivateAgain => exact .same (by simp [DispatcherMem.books]) rfl
  | stopReturned target issued hidle => cases issued <;> exact .same rfl rfl
  | invoke hframe hstep => cases hframe <;> exact .same rfl rfl
  | stop hframe hstep => cases hframe <;> exact .same rfl rfl
  | _ => exact .same rfl rfl

end Frames

section Queue

variable {b : Books T E} {xs xs' : List (Publication E)} {v v' : OpView (Publication E)}

/-- What a publication or a discarding `shutdown` has put into the books when the contents of
the queue have changed from `xs` to `xs'`. -/
def Books.moved (b : Books T E) (xs xs' : List (Publication E)) (f : Frame T E) : Books T E :=
  { b with
    contents := xs'
    accepted := b.accepted ++ match f with
      | .publish _ _ _ _ _ => xs'.drop xs.length
      | _ => []
    destroyed := b.destroyed ++ match f with
      | .shutdown .discard _ => xs.take (xs.length - xs'.length)
      | _ => [] }

/-- A step inside the queue moves events in the books. -/
theorem books_setQueue {Q : QueuePolicy T (Publication E)} (m : DispatcherMem Q) (qm : Q.Mem)
    (f : Frame T E) :
    DispatcherMem.books (m.setQueue qm (Dispatcher.accepted Q f m.queue qm)
      (Dispatcher.destroyed Q f m.queue qm)) =
        m.books.moved (Q.contents m.queue) (Q.contents qm) f :=
  rfl

/-- A queue step that does not change the contents. -/
theorem Books.moved_self (h : b.contents = xs) (f : Frame T E) : b.moved xs xs f = b := by
  subst h
  cases f with
  | shutdown policy phase => cases policy <;> simp [Books.moved]
  | _ => simp [Books.moved]

/-- A pop takes an event out of the queue. -/
theorem Booked.take {event : Publication E} {rest batch : List (Publication E)}
    (h : b.contents = event :: rest) :
    Booked b { batch := ↑batch } { b with contents := rest }
      { popped := {event}, batch := ↑batch } where
  transit := by
    simp only [Books.settled, Books.taken, h, ← Multiset.cons_coe, ← Multiset.singleton_add]
    abel
  batches := rfl
  entered := rfl
  pending := rfl
  dropped := rfl
  accepted := rfl
  rejected := rfl

/-- The event of a publication enters the queue. -/
theorem Booked.enter (b : Books T E) (event : Publication E) :
    Booked b { pending := {event.id} }
      { b with
        contents := b.contents ++ [event]
        accepted := b.accepted ++ [event] }
      { entered := {event.id}, pending := {event.id} } where
  transit := by
    simp only [Books.settled, Books.taken, ← Multiset.coe_add]
    abel
  batches := rfl
  entered := by
    simp only [Books.acceptedIds, List.map_append, ← Multiset.coe_add, List.map_cons, List.map_nil,
      Multiset.coe_singleton]
    abel
  pending := rfl
  dropped := rfl
  accepted := rfl
  rejected := rfl

/-- `close_and_discard` destroys events. -/
theorem Booked.discard {gone rest : List (Publication E)} (h : b.contents = gone ++ rest)
    (count : ℕ) :
    Booked b { dropped := count }
      { b with
        contents := rest
        destroyed := b.destroyed ++ gone }
      { dropped := count + gone.length } where
  transit := by
    simp only [Books.settled, Books.taken, h, ← Multiset.coe_add]
    abel
  batches := rfl
  entered := rfl
  pending := rfl
  dropped := by
    simp only [List.length_append]
    congr 2
    omega
  accepted := rfl
  rejected := rfl

/-- A push that has not succeeded has put nothing inside. -/
theorem entered_eq_false {A : Type} {outcome : PushOutcome} (h : outcome ≠ .returned .success) :
    (OpView.pushed outcome : OpView A).entered = false ∧
      (OpView.outside (some (.push outcome)) : OpView A).entered = false := by
  cases outcome with
  | returned status =>
      cases status with
      | success => exact absurd rfl h
      | _ => exact ⟨rfl, rfl⟩
  | threw => exact ⟨rfl, rfl⟩

/-- **Step lemma inside the queue**: it moves what the frame has in its hands, and the view
fits the frame again. -/
theorem Booked.move {f : Frame T E} (h : b.contents = xs) (hin : f.inQueue = true)
    (hfits : f.Fits v) (hmove : QueueMove xs v xs' v') :
    f.Fits v' ∧ Booked b (f.account v) (b.moved xs xs' f) (f.account v') := by
  have hsame : ∀ {v v' : OpView (Publication E)}, f.account v' = f.account v →
      Booked b (f.account v) (b.moved xs xs f) (f.account v') :=
    fun haccount => .same (Books.moved_self h _) haccount
  unfold Frame.inQueue at hin
  split at hin
  · next batch =>
      rcases hfits with ⟨taken, rfl⟩ | ⟨result, rfl⟩
      · cases hmove with
        | quiet => exact ⟨.inl ⟨_, rfl⟩, hsame rfl⟩
        | popReturn => exact ⟨.inr ⟨_, rfl⟩, hsame rfl⟩
        | popFail hfail =>
            refine ⟨.inr ⟨_, rfl⟩, hsame ?_⟩
            rename_i result
            cases result with
            | success event => exact absurd rfl (hfail event)
            | _ => rfl
        | take hhead =>
            have hmoved : b.moved xs xs' (.worker (.popping batch)) = { b with contents := xs' } := by
              simp [Books.moved]
            rw [hmoved]
            exact ⟨.inl ⟨_, rfl⟩, .take (h.trans hhead)⟩
      · cases hmove with
        | quiet => exact ⟨.inr ⟨_, rfl⟩, hsame rfl⟩
  · next event kind stop rest =>
      have hundecided : ∀ {v : OpView (Publication E)} {built : Bool}, v.entered = false →
          (Frame.publish event kind stop rest .pushing : Frame T E).account v =
            (Frame.publish event kind stop rest .pushing : Frame T E).account
              (.push event built) := by
        intro v built hv
        simp only [Frame.account, hv]
        rfl
      rcases hfits with ⟨built, rfl⟩ | ⟨outcome, rfl | rfl⟩
      · cases hmove with
        | quiet => exact ⟨.inl ⟨_, rfl⟩, hsame rfl⟩
        | build => exact ⟨.inl ⟨_, rfl⟩, hsame rfl⟩
        | enter =>
            subst h
            refine ⟨.inr ⟨_, .inl rfl⟩, ?_⟩
            have hmoved : b.moved b.contents (b.contents ++ [event])
                (.publish event kind stop rest .pushing) = { b with
                  contents := b.contents ++ [event]
                  accepted := b.accepted ++ [event] } := by
              simp [Books.moved]
            rw [hmoved]
            exact .enter b event
        | fail _ hfail =>
            exact ⟨.inr ⟨_, .inl rfl⟩, hsame (hundecided (entered_eq_false hfail).1)⟩
        | refuse _ hfail =>
            exact ⟨.inr ⟨_, .inr rfl⟩, hsame (hundecided (entered_eq_false hfail).2)⟩
      · cases hmove with
        | quiet => exact ⟨.inr ⟨_, .inl rfl⟩, hsame rfl⟩
        | pushReturn =>
            refine ⟨.inr ⟨_, .inr rfl⟩, hsame ?_⟩
            cases outcome with
            | returned status => cases status <;> rfl
            | threw => rfl
      · cases hmove with
        | quiet => exact ⟨.inr ⟨_, .inr rfl⟩, hsame rfl⟩
  · next target =>
      rcases hfits with rfl | ⟨last, rfl⟩
      · cases hmove with
        | quiet => exact ⟨.inl rfl, hsame rfl⟩
        | stopReturn last => exact ⟨.inr ⟨last, rfl⟩, hsame rfl⟩
      · cases hmove with
        | quiet => exact ⟨.inr ⟨last, rfl⟩, hsame rfl⟩
  · next policy =>
      rcases hfits with ⟨count, rfl⟩ | ⟨rfl, rfl⟩ | ⟨count, rfl, rfl⟩
      · cases policy with
        | drain =>
            change QueueMove xs (.close false count) xs' v' at hmove
            cases hmove with
            | quiet => exact ⟨.inl ⟨count, rfl⟩, hsame rfl⟩
            | closeReturn => exact ⟨.inr (.inl ⟨rfl, rfl⟩), hsame rfl⟩
        | discard =>
            change QueueMove xs (.close true count) xs' v' at hmove
            cases hmove with
            | quiet => exact ⟨.inl ⟨count, rfl⟩, hsame rfl⟩
            | discard hsplit =>
                rename_i gone
                have hmoved : b.moved xs xs' (.shutdown .discard .closing) = { b with
                    contents := xs'
                    destroyed := b.destroyed ++ gone } := by
                  simp [Books.moved, hsplit]
                rw [hmoved]
                exact ⟨.inl ⟨_, rfl⟩, .discard (h.trans hsplit) count⟩
            | discardReturn => exact ⟨.inr (.inr ⟨count, rfl, rfl⟩), hsame rfl⟩
      · cases hmove with
        | quiet => exact ⟨.inr (.inl ⟨rfl, rfl⟩), hsame rfl⟩
      · cases hmove with
        | quiet => exact ⟨.inr (.inr ⟨count, rfl, rfl⟩), hsame rfl⟩
  · cases hin

end Queue

namespace Dispatcher

variable [DecidableEq T] {Q : QueuePolicy T (Publication E)} {M : QueueModel Q} {setup : Setup T}
  {t : T} {m m' : DispatcherMem Q} {l l' : ThreadLoc Q} {c : DispatcherChoice Q}

/-- What a thread has in its hands. -/
def account (M : QueueModel Q) (l : ThreadLoc Q) : Account E :=
  nextAccount (M.view l.queue) l.stack.head?

/-- The queue operation of a thread is the one that the frame on top of its stack is in. -/
def Coherent (M : QueueModel Q) (l : ThreadLoc Q) : Prop :=
  (∀ f ∈ l.stack.head?, f.Fits (M.view l.queue)) ∧
    (l.stack = [] → ∃ last, M.view l.queue = .outside last)

omit [DecidableEq T] in
/-- A frame in user code has nothing in its hands and is not in the queue. -/
theorem user_account {f : Frame T E} (h : f.user = true) (v : OpView (Publication E)) :
    f.account v = {} ∧ (f.Fits v ↔ ∃ last, v = .outside last) := by
  unfold Frame.user at h
  split at h <;> first | exact ⟨rfl, Iff.rfl⟩ | cases h

omit [DecidableEq T] in
/-- User code and what it returns to have nothing to account for. -/
theorem finishUser_account {f f' : Frame T E} {threw : Bool} (h : f.finishUser threw = some f')
    (v : OpView (Publication E)) :
    f.user = true ∧ f'.account v = {} ∧ (f'.Fits v ↔ ∃ last, v = .outside last) := by
  unfold Frame.finishUser at h
  split at h <;> cases h <;> exact ⟨rfl, rfl, Iff.rfl⟩

omit [DecidableEq T] in
/-- A call that begins a publication takes the next number. -/
theorem enter_booked {call : Call T E} {f : Frame T E} (h : enter m call = some (m', f))
    (v : OpView (Publication E)) :
    Booked m.books {} m'.books (f.account v) ∧ (f.Fits v ↔ ∃ last, v = .outside last) := by
  have hbegin : Booked m.books {} m.beginPublication.books
      ({ pending := {m.history.begun} } : Account E) := by
    refine ⟨rfl, rfl, rfl, ?_, rfl, rfl, rfl⟩
    rw [DispatcherMem.books_beginPublication]
    simp only [DispatcherMem.books_begun, Multiset.range_succ, ← Multiset.singleton_add]
    change {m.history.begun} + _ + (m.books.returnedIds + 0) =
      _ + (m.books.returnedIds + {m.history.begun})
    abel
  cases call with
  | publish kind payload stop =>
      cases h
      exact ⟨hbegin, Iff.rfl⟩
  | publishBatch payload rest =>
      cases h
      exact ⟨hbegin, Iff.rfl⟩
  | unsubscribe i | invoke i event =>
      simp only [enter] at h
      split at h <;> cases h
      exact ⟨.same rfl rfl, Iff.rfl⟩
  | _ =>
      cases h
      exact ⟨.same rfl rfl, Iff.rfl⟩

/-- A thread whose top frame, if any, is in user code. -/
theorem idle_account (h : ∀ f ∈ l.stack.head?, f.user = true) (hl : Coherent M l) :
    account M l = {} ∧ ∃ last, M.view l.queue = .outside last := by
  cases hstack : l.stack with
  | nil => exact ⟨by rw [account, hstack]; rfl, hl.2 hstack⟩
  | cons f rest =>
      have huser := h f (by rw [hstack]; rfl)
      have hfits := hl.1 f (by rw [hstack]; rfl)
      refine ⟨?_, (user_account huser _).2.mp hfits⟩
      rw [account, hstack]
      exact (user_account huser _).1

/-- **Step lemma**, for the moving thread. -/
theorem StepShape.booked {s : Config T (DispatcherMem Q) (ThreadLoc Q)}
    (hs : (system setup Q).Reachable s) (hl : Coherent M (s.loc t))
    (h : StepShape setup t s.mem (s.loc t) c m' l') :
    Coherent M l' ∧ Booked s.mem.books (account M (s.loc t)) m'.books (account M l') := by
  have horder := inOrder_reach s hs t
  cases h with
  | constructed hstack => exact ⟨hl, .same rfl rfl⟩
  | start hstack hentry =>
      obtain ⟨haccount, hout⟩ := idle_account (by simp [hstack]) hl
      refine ⟨⟨?_, by simp⟩, ?_⟩
      · rintro f ⟨⟩
        exact hout
      · rw [haccount]
        exact .same rfl rfl
  | call huser henter =>
      have htop : ∀ f ∈ (s.loc t).stack.head?, f.user = true := by
        intro f hf
        cases hstack : (s.loc t).stack with
        | nil => simp [hstack] at hf
        | cons g rest =>
            rw [hstack] at hf huser
            cases hf
            exact huser
      obtain ⟨haccount, hout⟩ := idle_account htop hl
      obtain ⟨hbooked, hfits⟩ := enter_booked henter (M.view (s.loc t).queue)
      refine ⟨⟨?_, by simp⟩, ?_⟩
      · rintro f ⟨⟩
        exact hfits.mpr hout
      · rw [haccount]
        exact hbooked
  | finish hstack hfinish =>
      obtain ⟨huser, hnothing, hfits⟩ := finishUser_account hfinish (M.view (s.loc t).queue)
      obtain ⟨haccount, hout⟩ := idle_account (by rw [hstack]; rintro f ⟨⟩; exact huser) hl
      refine ⟨⟨?_, by simp⟩, ?_⟩
      · rintro f ⟨⟩
        exact hfits.mpr hout
      · rw [haccount]
        exact .same rfl hnothing
  | @frame flag thread _ q' contexts' f f' rest hstack hstep =>
      have hfits : f.Fits (M.view (s.loc t).queue) := hl.1 f (by rw [hstack]; rfl)
      have haccount : account M (s.loc t) = f.account (M.view (s.loc t).queue) := by
        rw [account, hstack]
        rfl
      obtain ⟨hnext, hreturned⟩ := hstep.fits hfits
      have hbooked := hstep.booked hfits
      rw [haccount]
      cases f' with
      | some g =>
          refine ⟨⟨?_, by simp⟩, hbooked⟩
          rintro f ⟨⟩
          exact hnext g rfl
      | none =>
          have huser : ∀ f ∈ rest.head?, f.user = true := by
            intro f hf
            have hsuspended := horder.suspended
            rw [hstack] at hsuspended
            exact hsuspended f (List.mem_of_mem_head? hf)
          obtain ⟨last, hout⟩ := hreturned rfl
          have hcoherent : Coherent M ⟨q', contexts', rest⟩ := by
            refine ⟨fun f hf => ?_, fun _ => ⟨last, hout⟩⟩
            exact (user_account (huser f hf) _).2.mpr ⟨last, hout⟩
          refine ⟨hcoherent, ?_⟩
          rw [show account M ⟨q', contexts', (none : Option (Frame T E)).toList ++ rest⟩ = {} from
            (idle_account huser hcoherent).1]
          exact hbooked
  | @queue choice qm q' f rest hstack hin hbusy hstep =>
      have hfits : f.Fits (M.view (s.loc t).queue) := hl.1 f (by rw [hstack]; rfl)
      have hmove := (M.move (queue_reach s hs) hbusy hstep).1
      obtain ⟨hfits', hbooked⟩ := Booked.move (b := s.mem.books) rfl hin hfits hmove
      refine ⟨⟨?_, ?_⟩, ?_⟩
      · intro g hg
        rw [show ({ s.loc t with queue := q' } : ThreadLoc Q).stack = f :: rest from hstack] at hg
        cases hg
        exact hfits'
      · intro hnil
        rw [show ({ s.loc t with queue := q' } : ThreadLoc Q).stack = f :: rest from hstack] at hnil
        cases hnil
      · have haccount : account M (s.loc t) = f.account (M.view (s.loc t).queue) := by
          rw [account, hstack]
          rfl
        have haccount' : account M { s.loc t with queue := q' } = f.account (M.view q') := by
          rw [account]
          change nextAccount _ (s.loc t).stack.head? = _
          rw [hstack]
          rfl
        rw [haccount, haccount', books_setQueue]
        exact hbooked

variable [Fintype T]

/-- **The books balance**: what they hold and what the threads have in their hands is all
there is. -/
structure Ledger (M : QueueModel Q) (s : Config T (DispatcherMem Q) (ThreadLoc Q)) : Prop where
  coherent : ∀ t, Coherent M (s.loc t)
  transit : (s.mem.books.accepted : Multiset (Publication E)) =
    s.mem.books.settled + tally (fun l => (account M l).popped) s.loc
  batches : s.mem.books.taken =
    s.mem.books.broadcast + tally (fun l => (account M l).batch) s.loc
  entered : s.mem.books.acceptedIds =
    successes s.mem.books.returned + tally (fun l => (account M l).entered) s.loc
  pending : Multiset.range s.mem.books.begun =
    s.mem.books.returnedIds + tally (fun l => (account M l).pending) s.loc
  dropped : s.mem.metrics.dropped + UInt64.ofNat (tally (fun l => (account M l).dropped) s.loc) =
    UInt64.ofNat s.mem.history.destroyed.length
  accepted : s.mem.metrics.accepted = UInt64.ofNat (successes s.mem.history.returned).card
  rejected : s.mem.metrics.rejected = UInt64.ofNat (refusals s.mem.history.returned).card

/-- **Step lemma.** -/
theorem Ledger.step {s : Config T (DispatcherMem Q) (ThreadLoc Q)} (hledger : Ledger M s)
    (hs : (system setup Q).Reachable s) (h : StepShape setup t s.mem (s.loc t) c m' l') :
    Ledger M ⟨m', Function.update s.loc t l'⟩ := by
  obtain ⟨hcoherent, hbooked⟩ := h.booked hs (hledger.coherent t)
  refine
    { coherent := ?_
      transit := tally_balance hbooked.transit hledger.transit
      batches := tally_balance hbooked.batches hledger.batches
      entered := tally_balance hbooked.entered hledger.entered
      pending := tally_balance hbooked.pending hledger.pending
      dropped := ?_
      accepted := ?_
      rejected := ?_ }
  · exact (Function.forall_update_iff s.loc fun _ l => Coherent M l).mpr
      ⟨hcoherent, fun u _ => hledger.coherent u⟩
  · have hmoved := congrArg UInt64.ofNat
      (tally_update (fun l => (account M l).dropped) s.loc t l')
    have hbefore := hledger.dropped
    have hstep := hbooked.dropped
    simp only [UInt64.ofNat_add, DispatcherMem.books_metrics, DispatcherMem.books_destroyed] at *
    grind
  · have hbefore := hledger.accepted
    have hstep := hbooked.accepted
    simp only [DispatcherMem.books_metrics, DispatcherMem.books_returned] at *
    grind
  · have hbefore := hledger.rejected
    have hstep := hbooked.rejected
    simp only [DispatcherMem.books_metrics, DispatcherMem.books_returned] at *
    grind

omit [Fintype T] in
/-- A thread that has not moved yet has nothing in its hands. -/
theorem started_account (hidle : M.view Q.loc₀ = .outside none) (t : T) :
    Coherent M ((started setup Q).loc t) ∧ account M ((started setup Q).loc t) = {} := by
  by_cases hworker : t ∈ setup.workers
  · have hloc : (started setup Q).loc t = ⟨Q.loc₀, [], [.worker (.callPop [])]⟩ := by
      simp [started, hworker]
    rw [hloc]
    refine ⟨⟨?_, by simp⟩, rfl⟩
    intro f hf
    cases hf
    exact ⟨none, hidle⟩
  · have hloc : (started setup Q).loc t = ⟨Q.loc₀, [], []⟩ := by
      simp [started, hworker]
    rw [hloc]
    exact ⟨⟨by simp, fun _ => ⟨none, hidle⟩⟩, rfl⟩

/-- Nothing is added up where nobody has anything to account for. -/
theorem tally_account {loc : T → ThreadLoc Q} (hnone : ∀ t, account M (loc t) = {}) {A : Type}
    [AddCommMonoid A] (f : Account E → A) (hf : f {} = 0) :
    tally (fun l => f (account M l)) loc = 0 := by
  refine tally_eq_zero fun u => ?_
  rw [hnone u, hf]

/-- **Run lemma.** -/
theorem ledger_reach (hempty : Q.contents Q.mem₀ = []) (hidle : M.view Q.loc₀ = .outside none) :
    ∀ s, (system setup Q).Reachable s → Ledger M s := by
  refine interleave_invariant ?_ ?_
  · intro s hs
    have hnone : ∀ u, account M (s.loc u) = {} := by
      intro u
      rw [hs]
      exact (started_account hidle u).2
    refine ⟨?_, ?_, ?_, ?_, ?_, ?_, ?_, ?_⟩
    · intro u
      rw [hs]
      exact (started_account hidle u).1
    · rw [tally_account hnone Account.popped rfl, hs]
      simp [started, Books.settled, Books.taken, hempty]
    · rw [tally_account hnone Account.batch rfl, hs]
      rfl
    · rw [tally_account hnone Account.entered rfl, hs]
      rfl
    · rw [tally_account hnone Account.pending rfl, hs]
      rfl
    · rw [tally_account hnone Account.dropped rfl, hs]
      rfl
    · rw [hs]
      rfl
    · rw [hs]
      rfl
  · intro s t c m l hs hledger _ hstep
    exact hledger.step hs (step_shape hstep)

omit [DecidableEq T] [Fintype T] in
/-- The successes are among the publications that have returned. -/
theorem successes_le (returned : List (ℕ × PushOutcome)) :
    successes returned ≤ (returned.map Prod.fst : Multiset ℕ) :=
  Multiset.coe_le.mpr (List.filter_sublist.map _).subperm

omit [Fintype T] in
/-- An event inside belongs to a publication under way. -/
theorem entered_le_pending (l : ThreadLoc Q) : (account M l).entered ≤ (account M l).pending := by
  have hframe : ∀ (f : Frame T E) (v : OpView (Publication E)),
      (f.account v).entered ≤ (f.account v).pending := by
    intro f v
    unfold Frame.account
    split
    · exact le_rfl
    · exact le_rfl
    · exact le_rfl
    · dsimp only
      split
      · exact le_rfl
      · exact Multiset.zero_le _
    · dsimp only
      split
      · exact le_rfl
      · exact Multiset.zero_le _
    · exact Multiset.zero_le _
    · exact le_rfl
    · exact le_rfl
    · exact le_rfl
  unfold account nextAccount
  split
  · exact hframe _ _
  · exact le_rfl

/-- An accepted event bears a number that has been given out. -/
theorem Ledger.acceptedIds_le {s : Config T (DispatcherMem Q) (ThreadLoc Q)}
    (hledger : Ledger M s) : s.mem.books.acceptedIds ≤ Multiset.range s.mem.books.begun := by
  rw [hledger.entered, hledger.pending]
  refine add_le_add (successes_le _) ?_
  exact Finset.sum_le_sum fun t _ => entered_le_pending (s.loc t)

/-- **No number is accepted twice.** -/
theorem Ledger.accepted_nodup {s : Config T (DispatcherMem Q) (ThreadLoc Q)}
    (hledger : Ledger M s) : (s.mem.history.accepted.map Publication.id).Nodup :=
  Multiset.coe_nodup.mp (Multiset.nodup_of_le hledger.acceptedIds_le (Multiset.nodup_range _))

/-- A publication call is under way. -/
def InPublication (s : Config T (DispatcherMem Q) (ThreadLoc Q)) : Prop :=
  ∃ t event kind stop rest phase, .publish event kind stop rest phase ∈ (s.loc t).stack

/-- Once the dispatcher has stopped and the publications have returned, nobody has anything in
his hands. -/
theorem account_of_stopped {s : Config T (DispatcherMem Q) (ThreadLoc Q)}
    (hs : (system setup Q).Reachable s) (hstopped : s.mem.life.state = .stopped)
    (hquiet : ¬ InPublication s) (t : T) : account M (s.loc t) = {} := by
  have hlife := lifeInv_reach s hs
  have hgone := (shutdownInv_reach s hs).stopped hstopped
  have hplaced := (threadInv_reach s hs).placed t
  cases hstack : (s.loc t).stack with
  | nil =>
      rw [account, hstack]
      rfl
  | cons f rest =>
      have hmem : f ∈ (s.loc t).stack := by
        rw [hstack]
        exact List.mem_cons_self
      have howner : f.owner = none := by
        by_contra hsome
        obtain ⟨policy, hpolicy⟩ := Option.ne_none_iff_exists'.mp hsome
        have hstopping := hlife.owned t f hmem policy hpolicy
        rw [hstopped] at hstopping
        cases policy <;> cases hstopping
      rw [account, hstack]
      change f.account _ = {}
      cases f with
      | worker phase =>
          obtain ⟨hworker, hunfinished⟩ := hplaced _ hmem
          exact absurd (hgone t hworker) hunfinished
      | publish event kind stop rest phase => exact absurd ⟨t, _, _, _, _, _, hmem⟩ hquiet
      | shutdown policy phase =>
          cases phase with
          | closing | countDropped => cases howner
          | _ => rfl
      | _ => rfl

/-- The books when nobody has anything in his hands. -/
theorem Ledger.settle {s : Config T (DispatcherMem Q) (ThreadLoc Q)} (hledger : Ledger M s)
    (hnone : ∀ t, account M (s.loc t) = {}) :
    (s.mem.books.accepted : Multiset (Publication E)) = s.mem.books.settled ∧
      s.mem.books.taken = s.mem.books.broadcast ∧
      s.mem.books.acceptedIds = successes s.mem.books.returned ∧
      Multiset.range s.mem.books.begun = s.mem.books.returnedIds ∧
      s.mem.metrics.dropped = UInt64.ofNat s.mem.history.destroyed.length := by
  refine ⟨?_, ?_, ?_, ?_, ?_⟩
  · rw [hledger.transit, tally_account hnone Account.popped rfl, add_zero]
  · rw [hledger.batches, tally_account hnone Account.batch rfl, add_zero]
  · rw [hledger.entered, tally_account hnone Account.entered rfl, add_zero]
  · rw [hledger.pending, tally_account hnone Account.pending rfl, add_zero]
  · have hdropped := hledger.dropped
    rw [tally_account hnone Account.dropped rfl] at hdropped
    simpa using hdropped

end Dispatcher

end EventDispatcher
