import EventDispatcher.Dispatcher.QueueViews

/-!
# What a publication call does

A publication is followed from the step in which user code makes the call to the one in
which it returns, together with a record of what the steps of its own thread did.  Other
threads move in between; what they do is not in the record.

The events of a call are accepted one after the other.  `Attempting` says what the record
holds while the attempt on one of them is under way, `Published` what it holds at the end.
-/

namespace EventDispatcher

open Transition

/-- `batch_publish_result`. -/
structure BatchPublishResult where
  requested : ℕ
  accepted : ℕ
  status : QueueStatus
  deriving DecidableEq

/-- The loop of `try_publish_batch`, given how its attempts end.  An exception leaves it
without a result. -/
def tryPublishBatch {E : Type} (requested accepted : ℕ) :
    List E → List PushOutcome → Option BatchPublishResult
  | [], _ => some ⟨requested, accepted, .success⟩
  | _ :: events, .returned .success :: outcomes =>
      tryPublishBatch requested (accepted + 1) events outcomes
  | _ :: _, .returned status :: _ => some ⟨requested, accepted, status⟩
  | _ :: _, _ => none

/-- What the steps of one thread have done since its call began. -/
structure CallRecord (E : Type) where
  /-- the contents of the queue before and after each step -/
  changes : List (List (Publication E) × List (Publication E)) := []
  /-- the events that have been moved or copied from -/
  consumed : List (Publication E) := []
  /-- how the publications of the call have ended -/
  outcomes : List PushOutcome := []
  /-- by how much the free capacity of the queue has grown -/
  freed : ℤ := 0
  /-- by how much the two metrics have grown -/
  accepted : UInt64 := 0
  rejected : UInt64 := 0

/-- The steps that made `changes` left the queue alone or appended to it, `events` in this
order. -/
inductive Appends {E : Type} : List (List E × List E) → List E → Prop
  | none : Appends [] []
  | step {changes : List (List E × List E)} {events : List E} (h : Appends changes events)
      (xs new : List E) : Appends (changes ++ [(xs, xs ++ new)]) (events ++ new)

/-- A step that leaves the queue alone. -/
theorem Appends.quiet {E : Type} {changes : List (List E × List E)} {events : List E}
    (h : Appends changes events) (xs : List E) : Appends (changes ++ [(xs, xs)]) events := by
  have hstep := h.step xs []
  rwa [List.append_nil, List.append_nil] at hstep

namespace OpView

variable {E : Type}

@[simp]
theorem consumed_self (v : OpView E) : v.consumed v = [] := by
  cases v with
  | push event built => cases built <;> rfl
  | _ => rfl

@[simp]
theorem consumed_start (v : OpView E) (op : QueueOp E) : v.consumed (.start op) = [] := by
  cases v with
  | push event built => cases built <;> cases op <;> rfl
  | _ => rfl

end OpView

variable {T E : Type} [DecidableEq T] {Q : QueuePolicy T (Publication E)}

/-- A step of the thread is added to the record. -/
def CallRecord.add (M : QueueModel Q) (r : CallRecord E) (m : DispatcherMem Q) (l : ThreadLoc Q)
    (m' : DispatcherMem Q) (l' : ThreadLoc Q) : CallRecord E where
  changes := r.changes ++ [(Q.contents m.queue, Q.contents m'.queue)]
  consumed := r.consumed ++ (M.view l.queue).consumed (M.view l'.queue)
  outcomes := r.outcomes ++
    (m'.history.returned.drop m.history.returned.length).map Prod.snd
  freed := r.freed + (M.free m'.queue - M.free m.queue)
  accepted := r.accepted + (m'.metrics.accepted - m.metrics.accepted)
  rejected := r.rejected + (m'.metrics.rejected - m.metrics.rejected)

/-- Publications only begin. -/
theorem FrameStep.begun_le {setup : Setup T} {flag : Bool} {t : T} {m m' : DispatcherMem Q}
    {q q' : Q.Loc} {contexts contexts' : Contexts} {f : Frame T E} {f' : Option (Frame T E)}
    (h : FrameStep setup flag t m q contexts f m' q' contexts' f') :
    m.history.begun ≤ m'.history.begun := by
  cases h with
  | publishCounted | publishNext | deactivate | deactivateAgain => simp
  | _ => exact le_rfl

/-- The events that a call publishes. -/
def Call.span : Call T E → Option (List E)
  | .publish _ payload _ => some [payload]
  | .publishBatch payload rest => some (payload :: rest)
  | _ => none

namespace Dispatcher

/-- Any interleaving, with a record of the steps of `t`. -/
def watched (M : QueueModel Q) (setup : Setup T) (t : T) :
    System (Config T (DispatcherMem Q) (ThreadLoc Q) × CallRecord E) (T × DispatcherChoice Q) :=
  (system setup Q).watch fun s a s' r =>
    if a.1 = t then r.add M s.mem (s.loc t) s'.mem (s'.loc t) else r

/-- `t` has not returned from the call that it made when its stack was `below`. -/
def InCall (t : T) (below : List (Frame T E))
    (p : Config T (DispatcherMem Q) (ThreadLoc Q) × CallRecord E) (a : T × DispatcherChoice Q) :
    Prop :=
  a.1 = t → (p.1.loc t).stack ≠ below

/-- How far the attempt on `event` has come: whether the event has entered the queue and
whether the caller's has been consumed. -/
inductive Attempt (M : QueueModel Q) (event : Publication E) (q : Q.Loc) :
    PublishPhase → Bool → Bool → Prop
  | check : Attempt M event q .check false false
  | call : Attempt M event q .call false false
  | undecided {built : Bool} (hview : M.view q = .push event built) :
      Attempt M event q .pushing false built
  | decided {outcome : PushOutcome}
      (hview : M.view q = .pushed outcome ∨ M.view q = .outside (some (.push outcome))) :
      Attempt M event q .pushing (outcome = .returned .success) (outcome = .returned .success)
  | count (status : QueueStatus) :
      Attempt M event q (.count status) (status = .success) (status = .success)

/-- The slots that the attempt has in its hands. -/
def heldBy (M : QueueModel Q) (q : Q.Loc) : PublishPhase → ℤ
  | .pushing => M.held q
  | _ => 0

/-- The record while the attempt on `event` is under way and the events of `done` have been
accepted. -/
structure Attempting (M : QueueModel Q) (m : DispatcherMem Q) (q : Q.Loc) (r : CallRecord E)
    (done : List (Publication E)) (event : Publication E) (phase : PublishPhase)
    (entered consumed : Bool) : Prop where
  attempt : Attempt M event q phase entered consumed
  ids : ((done ++ [event]).map Publication.id).Pairwise (· < ·)
  fresh : event.id < m.history.begun
  changes : Appends r.changes (done ++ if entered then [event] else [])
  consumed : r.consumed = done ++ if consumed then [event] else []
  outcomes : r.outcomes = List.replicate done.length (.returned .success)
  freed : r.freed + heldBy M q phase + done.length + (if entered then 1 else 0) = 0
  accepted : r.accepted = UInt64.ofNat done.length
  rejected : r.rejected = 0

/-- The record of a call that has returned after the events of `done`, with `rest` left of
its span. -/
structure Published (span : List E) (r : CallRecord E) (done : List (Publication E))
    (rest : List E) : Prop where
  span_eq : span = done.map Publication.payload ++ rest
  ids : (done.map Publication.id).Pairwise (· < ·)
  changes : Appends r.changes done
  consumed : r.consumed = done
  freed : r.freed = -done.length
  accepted : r.accepted = UInt64.ofNat done.length
  ended : (rest = [] ∧ r.outcomes = List.replicate done.length (.returned .success) ∧
      r.rejected = 0) ∨
    (rest ≠ [] ∧ ∃ outcome, outcome ≠ .returned .success ∧
      r.outcomes = List.replicate done.length (.returned .success) ++ [outcome] ∧
      r.rejected = if outcome = .threw then 0 else 1)

/-- The call for `span` is under way above `below`. -/
def Publishing (M : QueueModel Q) (span : List E) (below : List (Frame T E))
    (m : DispatcherMem Q) (l : ThreadLoc Q) (r : CallRecord E) : Prop :=
  ∃ done event kind stop rest phase entered consumed,
    l.stack = .publish event kind stop rest phase :: below ∧
    span = done.map Publication.payload ++ event.payload :: rest ∧
    Attempting M m l.queue r done event phase entered consumed

section Steps

variable {setup : Setup T} {t : T} {M : QueueModel Q} {m m' : DispatcherMem Q}
  {l l' : ThreadLoc Q} {c : DispatcherChoice Q} {q q' : Q.Loc} {r : CallRecord E}
  {done : List (Publication E)} {event : Publication E} {phase : PublishPhase}
  {entered consumed : Bool}

/-- The outcomes and metrics of a record after a step that returns nothing. -/
theorem add_quiet (M : QueueModel Q) (r : CallRecord E) (l l' : ThreadLoc Q)
    (hreturned : m'.history.returned = m.history.returned) (hmetrics : m'.metrics = m.metrics) :
    (r.add M m l m' l').outcomes = r.outcomes ∧ (r.add M m l m' l').accepted = r.accepted ∧
      (r.add M m l m' l').rejected = r.rejected := by
  simp [CallRecord.add, hreturned, hmetrics]

/-- A step of the call outside the queue. -/
theorem Attempting.step (h : Attempting M m l.queue r done event phase entered consumed)
    {phase' : PublishPhase} (hattempt : Attempt M event l'.queue phase' entered consumed)
    (hheld : heldBy M l'.queue phase' = heldBy M l.queue phase)
    (hcontents : Q.contents m'.queue = Q.contents m.queue)
    (hfree : M.free m'.queue = M.free m.queue)
    (hview : (M.view l.queue).consumed (M.view l'.queue) = [])
    (hhistory : m'.history = m.history) (hmetrics : m'.metrics = m.metrics) :
    Attempting M m' l'.queue (r.add M m l m' l') done event phase' entered consumed := by
  obtain ⟨houtcomes, haccepted, hrejected⟩ := add_quiet M r l l'
    (congrArg History.returned hhistory) hmetrics
  refine ⟨hattempt, h.ids, ?_, ?_, ?_, houtcomes.trans h.outcomes, ?_,
    haccepted.trans h.accepted, hrejected.trans h.rejected⟩
  · rw [hhistory]
    exact h.fresh
  · simp only [CallRecord.add, hcontents]
    exact h.changes.quiet _
  · simp only [CallRecord.add, hview, List.append_nil]
    exact h.consumed
  · simp only [CallRecord.add, hfree, sub_self, add_zero, hheld]
    exact h.freed

/-- A step of the call inside the queue, with what it adds to the attempt. -/
theorem Attempting.queueStep
    (h : Attempting M m l.queue r done event .pushing entered consumed)
    {entered' consumed' : Bool} {new used : List (Publication E)}
    (hattempt : Attempt M event l'.queue .pushing entered' consumed')
    (hreturned : m'.history.returned = m.history.returned) (hmetrics : m'.metrics = m.metrics)
    (hbegun : m'.history.begun = m.history.begun)
    (hcontents : Q.contents m'.queue = Q.contents m.queue ++ new)
    (hview : (M.view l.queue).consumed (M.view l'.queue) = used)
    (hbalance : M.free m'.queue + M.held l'.queue + (Q.contents m'.queue).length =
      M.free m.queue + M.held l.queue + (Q.contents m.queue).length)
    (hentered : (if entered' then [event] else []) = (if entered then [event] else []) ++ new)
    (hconsumed : (if consumed' then [event] else []) =
      (if consumed then [event] else []) ++ used) :
    Attempting M m' l'.queue (r.add M m l m' l') done event .pushing entered' consumed' := by
  obtain ⟨houtcomes, haccepted, hrejected⟩ := add_quiet M r l l' hreturned hmetrics
  refine ⟨hattempt, h.ids, ?_, ?_, ?_, houtcomes.trans h.outcomes, ?_,
    haccepted.trans h.accepted, hrejected.trans h.rejected⟩
  · rw [hbegun]
    exact h.fresh
  · simp only [CallRecord.add, hcontents, hentered, ← List.append_assoc]
    exact h.changes.step _ new
  · simp only [CallRecord.add, hview, h.consumed, hconsumed, List.append_assoc]
  · have hfreed := h.freed
    have hlength := congrArg List.length hentered
    simp only [CallRecord.add, heldBy] at hfreed ⊢
    rw [hcontents, List.length_append] at hbalance
    rw [List.length_append] at hlength
    have hone : ∀ b : Bool, ((if b then [event] else []).length : ℤ) = if b then 1 else 0 := by
      intro b
      cases b <;> rfl
    have hlength' : ((if entered' then 1 else 0 : ℤ)) = (if entered then 1 else 0) + new.length := by
      rw [← hone, ← hone, hlength]
      push_cast
      rfl
    rw [hlength']
    push_cast at hbalance
    omega

/-- **Step lemma inside the queue**: a move of the queue takes the attempt further. -/
theorem Attempting.move
    (h : Attempting M m l.queue r done event .pushing entered consumed) (m' : DispatcherMem Q)
    (l' : ThreadLoc Q) (hbusy : Q.idle l.queue = false)
    (hmove : QueueMove (Q.contents m.queue) (M.view l.queue) (Q.contents m'.queue)
      (M.view l'.queue))
    (hbalance : M.free m'.queue + M.held l'.queue + (Q.contents m'.queue).length =
      M.free m.queue + M.held l.queue + (Q.contents m.queue).length)
    (hreturned : m'.history.returned = m.history.returned) (hmetrics : m'.metrics = m.metrics)
    (hbegun : m'.history.begun = m.history.begun) :
    ∃ entered' consumed',
      Attempting M m' l'.queue (r.add M m l m' l') done event .pushing entered' consumed' := by
  generalize hxs : Q.contents m.queue = xs at hmove
  generalize hxs' : Q.contents m'.queue = xs' at hmove
  generalize hv' : M.view l'.queue = v' at hmove
  -- what each move adds to the contents and to what has been consumed
  have hstep : ∀ {entered' consumed' : Bool} {new used : List (Publication E)},
      Attempt M event l'.queue .pushing entered' consumed' → xs' = xs ++ new →
      (M.view l.queue).consumed v' = used →
      (if entered' then [event] else []) = (if entered then [event] else []) ++ new →
      (if consumed' then [event] else []) = (if consumed then [event] else []) ++ used →
      ∃ entered' consumed',
        Attempting M m' l'.queue (r.add M m l m' l') done event .pushing entered' consumed' := by
    intro entered' consumed' new used hattempt hnew hused hentered hconsumed
    refine ⟨entered', consumed', h.queueStep hattempt hreturned hmetrics hbegun ?_ ?_ hbalance
      hentered hconsumed⟩
    · rw [hxs, hxs', hnew]
    · rw [hv', hused]
  cases h.attempt with
  | undecided hview =>
      rw [hview] at hmove hstep
      cases hmove with
      | quiet =>
          exact hstep (.undecided hv') (List.append_nil _).symm (OpView.consumed_self _) (by simp)
            (by simp)
      | build =>
          exact hstep (.undecided hv') (List.append_nil _).symm (rfl : _ = [event]) (by simp) rfl
      | enter =>
          refine hstep (.decided (.inl hv')) rfl rfl (by simp) ?_
          cases consumed <;> simp [OpView.consumed]
      | fail _ hfail =>
          refine hstep (.decided (.inl hv')) (List.append_nil _).symm (?_ : _ = [])
            (by simp [hfail]) (by simp [hfail])
          unfold OpView.consumed
          split
          · next heq => cases heq
          · next heq => cases heq; exact absurd rfl hfail
          · rfl
      | refuse _ hfail =>
          exact hstep (.decided (.inr hv')) (List.append_nil _).symm (rfl : _ = [])
            (by simp [hfail]) (by simp [hfail])
  | decided hview =>
      rcases hview with hview | hview
      · rw [hview] at hmove hstep
        cases hmove with
        | quiet =>
            exact hstep (.decided (.inl hv')) (List.append_nil _).symm (rfl : _ = []) (by simp)
              (by simp)
        | pushReturn =>
            exact hstep (.decided (.inr hv')) (List.append_nil _).symm (rfl : _ = []) (by simp)
              (by simp)
      · have hidle : Q.idle l.queue = true := by
          rw [M.idle_iff, hview, M.outside_last _ _ hview]
        rw [hidle] at hbusy
        cases hbusy

/-- The step that counts a status. -/
theorem add_counted (M : QueueModel Q) (r : CallRecord E) (l l' : ThreadLoc Q) (id : ℕ)
    (status : QueueStatus)
    (hreturned : m'.history.returned = m.history.returned ++ [(id, .returned status)])
    (hmetrics : m'.metrics = (m.countStatus status).metrics) :
    (r.add M m l m' l').outcomes = r.outcomes ++ [.returned status] ∧
      (r.add M m l m' l').accepted = r.accepted + (if status = .success then 1 else 0) ∧
      (r.add M m l m' l').rejected = r.rejected + (if status = .success then 0 else 1) := by
  refine ⟨by simp [CallRecord.add, hreturned], ?_, ?_⟩
  · simp only [CallRecord.add, hmetrics, DispatcherMem.countStatus]
    split <;> simp
  · simp only [CallRecord.add, hmetrics, DispatcherMem.countStatus]
    split <;> simp

/-- What a step that leaves the queue alone adds to the record. -/
theorem add_queue (M : QueueModel Q) (r : CallRecord E) (hqueue : m'.queue = m.queue)
    (hloc : l'.queue = l.queue) :
    (r.add M m l m' l').changes =
        r.changes ++ [(Q.contents m.queue, Q.contents m.queue)] ∧
      (r.add M m l m' l').consumed = r.consumed ∧ (r.add M m l m' l').freed = r.freed := by
  simp [CallRecord.add, hqueue, hloc]

/-- An accepted event is done. -/
theorem Attempting.accept
    (h : Attempting M m l.queue r done event (.count .success) entered consumed)
    (m' : DispatcherMem Q) (l' : ThreadLoc Q) (hqueue : m'.queue = m.queue) (hloc : l'.queue = l.queue)
    (hreturned : m'.history.returned = m.history.returned ++ [(event.id, .returned .success)])
    (hmetrics : m'.metrics = (m.countStatus .success).metrics) :
    Appends (r.add M m l m' l').changes (done ++ [event]) ∧
      (r.add M m l m' l').consumed = done ++ [event] ∧
      (r.add M m l m' l').outcomes =
        List.replicate (done ++ [event]).length (.returned .success) ∧
      (r.add M m l m' l').freed = -(done ++ [event]).length ∧
      (r.add M m l m' l').accepted = UInt64.ofNat (done ++ [event]).length ∧
      (r.add M m l m' l').rejected = 0 := by
  obtain ⟨houtcomes, haccepted, hrejected⟩ := add_counted M r l l' event.id .success hreturned hmetrics
  obtain ⟨hchanges, hconsumed, hfreed⟩ := add_queue M r hqueue hloc
  have hold := h.freed
  have hused := h.consumed
  have happends := h.changes
  cases h.attempt
  simp only [decide_true, if_true, heldBy, add_zero] at hold hused happends
  refine ⟨?_, hconsumed.trans hused, ?_, ?_, ?_, ?_⟩
  · rw [hchanges]
    exact happends.quiet _
  · rw [houtcomes, h.outcomes, List.length_append, List.length_singleton, List.replicate_succ']
  · rw [hfreed, List.length_append, List.length_singleton]
    push_cast
    omega
  · rw [haccepted, h.accepted, List.length_append, List.length_singleton, UInt64.ofNat_add]
    rfl
  · rw [hrejected, h.rejected]
    rfl

/-- A refused event ends the call. -/
theorem Attempting.refuse {rest : List E} {span : List E} {outcome : PushOutcome}
    (h : Attempting M m l.queue r done event phase false false)
    (hspan : span = done.map Publication.payload ++ event.payload :: rest)
    (hheld : heldBy M l.queue phase = 0) (hfail : outcome ≠ .returned .success)
    (hqueue : m'.queue = m.queue) (hloc : l'.queue = l.queue)
    (houtcomes : (r.add M m l m' l').outcomes = r.outcomes ++ [outcome])
    (haccepted : (r.add M m l m' l').accepted = r.accepted)
    (hrejected : (r.add M m l m' l').rejected = if outcome = .threw then 0 else 1) :
    Published span (r.add M m l m' l') done (event.payload :: rest) := by
  obtain ⟨hchanges, hconsumed, hfreed⟩ := add_queue M r hqueue hloc
  have hold := h.freed
  have hused := h.consumed
  have happends := h.changes
  have hids := h.ids
  simp only [Bool.false_eq_true, if_false, List.append_nil, add_zero, hheld] at hold hused happends
  rw [List.map_append] at hids
  refine ⟨hspan, (List.pairwise_append.mp hids).1, ?_, hconsumed.trans hused, ?_,
    haccepted.trans h.accepted, .inr ⟨by simp, outcome, hfail, ?_, hrejected⟩⟩
  · rw [hchanges]
    exact happends.quiet _
  · rw [hfreed]
    omega
  · rw [houtcomes, h.outcomes]

variable {span rest : List E} {below : List (Frame T E)} {kind : PushKind} {stop flag : Bool}
  {contexts' : Contexts} {f' : Option (Frame T E)}

/-- The call goes on, or it has returned. -/
def Followed (M : QueueModel Q) (span : List E) (below : List (Frame T E)) (m : DispatcherMem Q)
    (l : ThreadLoc Q) (r : CallRecord E) : Prop :=
  Publishing M span below m l r ∨
    (l.stack = below ∧ ∃ done rest, Published span r done rest)

/-- A push that has returned is decided by its outcome. -/
theorem Attempt.returned {outcome : PushOutcome}
    (h : Attempt M event q .pushing entered consumed)
    (hout : M.view q = .outside (some (.push outcome))) :
    entered = decide (outcome = .returned .success) ∧
      consumed = decide (outcome = .returned .success) := by
  cases h with
  | undecided hview =>
      rw [hview] at hout
      cases hout
  | decided hview =>
      rw [hout] at hview
      rcases hview with hview | hview <;> cases hview
      exact ⟨rfl, rfl⟩

/-- **Step lemma outside the queue.** -/
theorem Attempting.frame
    (h : Attempting M m l.queue r done event phase entered consumed)
    (hspan : span = done.map Publication.payload ++ event.payload :: rest)
    (hstep : FrameStep setup flag t m l.queue l.contexts
      (.publish event kind stop rest phase) m' l'.queue contexts' f')
    (hstack : l'.stack = f'.toList ++ below) :
    Followed M span below m' l' (r.add M m l m' l') := by
  generalize hf : Frame.publish event kind stop rest phase = f at hstep
  generalize hq : l'.queue = q' at hstep
  have hattempt := h.attempt
  cases hstep with
  | publishOpen =>
      cases hf
      cases hattempt
      refine .inl ⟨done, event, kind, stop, rest, .call, false, false, hstack, hspan, ?_⟩
      refine h.step .call rfl rfl rfl ?_ rfl rfl
      rw [hq, OpView.consumed_self]
  | publishRefused =>
      cases hf
      cases hattempt
      refine .inl ⟨done, event, kind, stop, rest, .count .closed, false, false, hstack, hspan, ?_⟩
      refine h.step (.count .closed) rfl rfl rfl ?_ rfl rfl
      rw [hq, OpView.consumed_self]
  | publishCall _ _ _ _ hcall =>
      cases hf
      cases hattempt
      obtain ⟨hview, hheld, hcontents, hfree⟩ := M.call hcall
      rw [← hq] at hview hheld
      refine .inl ⟨done, event, kind, stop, rest, .pushing, false, false, hstack, hspan, ?_⟩
      refine h.step (.undecided hview) hheld hcontents hfree ?_ rfl rfl
      rw [hview]
      exact OpView.consumed_start _ (.push kind event stop)
  | publishReturned _ _ _ _ hidle hlast =>
      cases hf
      have hout := (M.idle_iff _).mp hidle
      rw [hlast] at hout
      refine .inl ⟨done, event, kind, stop, rest, .count _, entered, consumed, hstack, hspan, ?_⟩
      refine h.step ?_ (M.held_outside _ _ hout).symm rfl rfl ?_ rfl rfl
      · obtain ⟨rfl, rfl⟩ := hattempt.returned hout
        simpa using Attempt.count (M := M) _
      · rw [hq, OpView.consumed_self]
  | publishThrew _ _ _ _ hidle hlast =>
      cases hf
      have hout := (M.idle_iff _).mp hidle
      rw [hlast] at hout
      obtain ⟨rfl, rfl⟩ := hattempt.returned hout
      refine .inr ⟨hstack, done, event.payload :: rest, ?_⟩
      refine Attempting.refuse h hspan (M.held_outside _ _ hout)
        (by simp : PushOutcome.threw ≠ _) rfl hq ?_ ?_ ?_
      · simp [CallRecord.add]
      · simp [CallRecord.add]
      · simp [CallRecord.add, h.rejected]
  | publishCounted _ _ _ _ status hlast =>
      cases hf
      by_cases hsuccess : status = .success
      · subst hsuccess
        rw [hlast rfl] at hspan
        obtain ⟨hchanges, hconsumed, houtcomes, hfreed, haccepted, hrejected⟩ :=
          h.accept ((m.countStatus .success).recordPublication event.id (.returned .success)) l'
            (by simp) hq (by simp) rfl
        refine .inr ⟨hstack, done ++ [event], [], ?_, h.ids, hchanges, hconsumed, hfreed,
          haccepted, .inl ⟨rfl, houtcomes, hrejected⟩⟩
        simpa using hspan
      · cases hattempt
        simp only [hsuccess, decide_false] at h
        obtain ⟨houtcomes, haccepted, hrejected⟩ := @add_counted _ _ _ _ m
          ((m.countStatus status).recordPublication event.id (.returned status)) M r l l' event.id
          status (by simp) rfl
        rw [if_neg hsuccess, add_zero] at haccepted
        rw [if_neg hsuccess, h.rejected, zero_add] at hrejected
        exact .inr ⟨hstack, done, event.payload :: rest,
          Attempting.refuse h hspan rfl (by simpa using hsuccess) (by simp) hq houtcomes haccepted
            (by simpa using hrejected)⟩
  | publishNext _ _ _ payload rest =>
      cases hf
      obtain ⟨hchanges, hconsumed, houtcomes, hfreed, haccepted, hrejected⟩ :=
        h.accept ((m.countStatus .success).recordPublication event.id
          (.returned .success)).beginPublication l' (by simp) hq (by simp) rfl
      refine .inl ⟨done ++ [event], ⟨m.history.begun, payload⟩, kind, stop, rest, .check, false,
        false, hstack, by simpa using hspan, .check, ?_, by simp, ?_, ?_, houtcomes, ?_,
        haccepted, hrejected⟩
      · rw [List.map_append, List.pairwise_append]
        refine ⟨h.ids, by simp, ?_⟩
        intro a ha b hb
        obtain rfl : b = m.history.begun := by simpa using hb
        rw [List.map_append, List.mem_append] at ha
        rcases ha with ha | ha
        · have hlt := (List.pairwise_append.mp (List.map_append ▸ h.ids)).2.2 a ha event.id (by simp)
          exact hlt.trans h.fresh
        · obtain rfl : a = event.id := by simpa using ha
          exact h.fresh
      · simpa using hchanges
      · simpa using hconsumed
      · rw [hfreed]
        simp [heldBy]
  | invoke hinvoke => cases hinvoke <;> cases hf
  | stop hstop => cases hstop <;> cases hf
  | _ => cases hf

omit [DecidableEq T] in
theorem enter_begun_le {call : Call T E} {frame : Frame T E}
    (h : enter m call = some (m', frame)) : m.history.begun ≤ m'.history.begun := by
  cases call with
  | unsubscribe i | invoke i event =>
      simp only [enter] at h
      split at h <;> cases h
      exact le_rfl
  | publish | publishBatch => cases h; exact Nat.le_succ _
  | _ => cases h; exact le_rfl

theorem StepShape.begun_le (h : StepShape setup t m l c m' l') :
    m.history.begun ≤ m'.history.begun := by
  cases h with
  | call huser henter => exact enter_begun_le henter
  | frame hstack hstep => exact hstep.begun_le
  | _ => exact le_rfl

/-- **Step lemma of the caller.** -/
theorem Publishing.step {s : Config T (DispatcherMem Q) (ThreadLoc Q)}
    (hs : (system setup Q).Reachable s) (h : Publishing M span below s.mem (s.loc t) r)
    (hstep : StepShape setup t s.mem (s.loc t) c m' l') :
    Followed M span below m' l' (r.add M s.mem (s.loc t) m' l') := by
  obtain ⟨done, event, kind, stop, rest, phase, entered, consumed, hstack, hspan, hatt⟩ := h
  cases hstep with
  | constructed hnone | start hnone =>
      rw [hstack] at hnone
      cases hnone
  | call huser =>
      rw [hstack] at huser
      cases huser
  | finish htop hfinish =>
      rw [hstack] at htop
      cases htop
      cases hfinish
  | frame htop hframe =>
      rw [hstack] at htop
      cases htop
      exact hatt.frame hspan hframe rfl
  | queue htop hin hbusy hq =>
      rw [hstack] at htop
      cases htop
      cases phase with
      | pushing =>
          obtain ⟨hmove, hbalance⟩ := M.move (queue_reach s hs) hbusy hq
          obtain ⟨entered', consumed', hatt'⟩ := hatt.move (s.mem.setQueue _ _ _)
            { s.loc t with queue := _ } hbusy hmove hbalance rfl rfl rfl
          exact .inl ⟨done, event, kind, stop, rest, .pushing, entered', consumed', hstack, hspan,
            hatt'⟩
      | _ => cases hin

/-- A step of another thread. -/
theorem Followed.mono (h : Followed M span below m l r)
    (hle : m.history.begun ≤ m'.history.begun) : Followed M span below m' l r := by
  rcases h with ⟨done, event, kind, stop, rest, phase, entered, consumed, hstack, hspan, hatt⟩ | h
  · exact .inl ⟨done, event, kind, stop, rest, phase, entered, consumed, hstack, hspan,
      { hatt with fresh := hatt.fresh.trans_le hle }⟩
  · exact .inr h

end Steps

section Runs

variable {setup : Setup T} {t : T} {M : QueueModel Q} {r : CallRecord E} {call : Call T E}
  {span : List E} {s₀ s s' : Config T (DispatcherMem Q) (ThreadLoc Q)}

/-- The call begins with nothing done. -/
theorem followed_call (hspan : call.span = some span)
    (hcall : (system setup Q).step s₀ (t, .call call) = some s) :
    Followed M span (s₀.loc t).stack s.mem (s.loc t) {} := by
  obtain ⟨m, l, hstep, rfl⟩ := Config.step_eq_some hcall
  simp only [Function.update_self]
  cases step_shape hstep with
  | call huser henter =>
      have hattempting : ∀ payload, Attempting M (s₀.mem.beginPublication) (s₀.loc t).queue {} []
          ⟨s₀.mem.history.begun, payload⟩ .check false false := by
        intro payload
        exact ⟨.check, by simp, by simp, .none, rfl, rfl, rfl, rfl, rfl⟩
      cases call with
      | publish kind payload stop =>
          cases henter
          cases hspan
          exact .inl ⟨[], _, kind, stop, [], .check, false, false, rfl, rfl, hattempting payload⟩
      | publishBatch payload rest =>
          cases henter
          cases hspan
          exact .inl ⟨[], _, .tryPush, false, rest, .check, false, false, rfl, rfl,
            hattempting payload⟩
      | _ => cases hspan

/-- **Run lemma**: what a publication has done, at any point until it has returned. -/
theorem followed_steps (hs₀ : (system setup Q).Reachable s₀) (hspan : call.span = some span)
    (hcall : (system setup Q).step s₀ (t, .call call) = some s)
    (hrun : (watched M setup t).Steps (InCall t (s₀.loc t).stack) (s, {}) (s', r)) :
    Followed M span (s₀.loc t).stack s'.mem (s'.loc t) r := by
  refine (System.Steps.watched (I := fun s r => Followed M span (s₀.loc t).stack s.mem (s.loc t) r)
    hrun (.step hs₀ trivial hcall) (followed_call hspan hcall) ?_).2
  intro s r a s' hs hinv hok hstep
  obtain ⟨u, c⟩ := a
  obtain ⟨m, l, hprog, rfl⟩ := Config.step_eq_some hstep
  have hshape := step_shape hprog
  by_cases hu : u = t
  · subst hu
    rcases hinv with hinv | hinv
    · simp only [if_true, Function.update_self]
      exact hinv.step hs hshape
    · exact absurd hinv.1 (hok rfl)
  · simp only [if_neg hu, Function.update_of_ne (Ne.symm hu)]
    exact hinv.mono hshape.begun_le

/-- The record of a publication that has returned. -/
theorem published (hs₀ : (system setup Q).Reachable s₀) (hspan : call.span = some span)
    (hcall : (system setup Q).step s₀ (t, .call call) = some s)
    (hrun : (watched M setup t).Steps (InCall t (s₀.loc t).stack) (s, {}) (s', r))
    (hreturned : (s'.loc t).stack = (s₀.loc t).stack) :
    ∃ done rest, Published span r done rest := by
  rcases followed_steps hs₀ hspan hcall hrun with h | h
  · obtain ⟨done, event, kind, stop, rest, phase, entered, consumed, hstack, _⟩ := h
    rw [hstack] at hreturned
    exact absurd hreturned (List.cons_ne_self _ _)
  · exact h.2

end Runs

section Executed

/-- `t` makes the call at the end of the schedule `before` and returns at the end of
`during`, with `p` of the record. -/
def returnsWith (M : QueueModel Q) (setup : Setup T) (t : T)
    (before : List (T × DispatcherChoice Q)) (call : Call T E)
    (during : List (T × DispatcherChoice Q)) (p : CallRecord E → Bool) : Bool :=
  ((system setup Q).run (fun _ _ => true) (started setup Q) before).any fun s₀ =>
    (s₀.loc t).stack.isEmpty && ((system setup Q).step s₀ (t, .call call)).any fun s =>
      ((watched M setup t).run (fun p a => a.1 != t || !(p.1.loc t).stack.isEmpty) (s, {})
        during).any fun p' => (p'.1.loc t).stack.isEmpty && p p'.2

/-- A schedule that has been executed is a run with its record. -/
theorem exists_returned (M : QueueModel Q) (setup : Setup T) (t : T)
    (before : List (T × DispatcherChoice Q)) (call : Call T E)
    (during : List (T × DispatcherChoice Q)) (p : CallRecord E → Bool)
    (h : returnsWith M setup t before call during p = true) :
    ∃ s₀ s s' r, (system setup Q).Reachable s₀ ∧
      (system setup Q).step s₀ (t, .call call) = some s ∧
      (watched M setup t).Steps (InCall t (s₀.loc t).stack) (s, {}) (s', r) ∧
      (s'.loc t).stack = (s₀.loc t).stack ∧ p r = true := by
  obtain ⟨s₀, hrun₀, h⟩ := (Option.any_eq_true _ _).mp h
  rw [Bool.and_eq_true] at h
  obtain ⟨hempty, h⟩ := h
  obtain ⟨s, hcall, h⟩ := (Option.any_eq_true _ _).mp h
  obtain ⟨⟨s', r⟩, hrun, h⟩ := (Option.any_eq_true _ _).mp h
  rw [Bool.and_eq_true] at h
  obtain ⟨hempty', hp⟩ := h
  rw [List.isEmpty_iff] at hempty hempty'
  refine ⟨s₀, s, s', r, ?_, hcall, System.run_steps ?_ hrun, ?_, hp⟩
  · exact System.run_reach (.init rfl) (fun _ _ _ _ _ => trivial) hrun₀
  · intro p a htest ha
    rw [hempty]
    simpa [ha] using htest
  · rw [hempty, hempty']

end Executed

section Claims

variable [Fintype T]

/-- What a publication of `payload` that ended with `outcome` has done. -/
structure AllOrNothing (payload : E) (r : CallRecord E) (outcome : PushOutcome) : Prop where
  outcomes : r.outcomes = [outcome]
  /-- the event or the arguments are consumed once, and one new element enters the queue -/
  success : outcome = .returned .success → ∃ event : Publication E, event.payload = payload ∧
    r.consumed = [event] ∧ Appends r.changes [event]
  /-- nothing is consumed, and every step of the call leaves the queue as it is -/
  failed : outcome ≠ .returned .success → r.consumed = [] ∧ Appends r.changes []
  /-- an exception leaves the capacity and the metrics as they are -/
  threw : outcome = .threw →
    Appends r.changes [] ∧ r.freed = 0 ∧ r.accepted = 0 ∧ r.rejected = 0

/-- **A publication is all or nothing**, over both queue policies, by each of its entry
points, whatever the other threads do in between. -/
theorem all_or_nothing (policy : PolicyKind) (hpolicy : policy.Admitted) (setup : Setup T) (t : T)
    (kind : PushKind) (payload : E) (stop : Bool) (r : CallRecord E)
    {s₀ s s' : Config T (DispatcherMem (policy.policy T (Publication E))) (ThreadLoc _)}
    (hs₀ : (system setup _).Reachable s₀)
    (hcall : (system setup _).step s₀ (t, .call (.publish kind payload stop)) = some s)
    (hrun : (watched (policy.model T (Publication E) hpolicy) setup t).Steps
      (InCall t (s₀.loc t).stack) (s, {}) (s', r))
    (hreturned : (s'.loc t).stack = (s₀.loc t).stack) :
    ∃ outcome, AllOrNothing payload r outcome := by
  obtain ⟨done, rest, h⟩ := published hs₀ rfl hcall hrun hreturned
  have hspan := h.span_eq
  cases done with
  | nil =>
      rcases h.ended with ⟨hrest, _⟩ | ⟨_, outcome, hfail, houtcomes, hrejected⟩
      · rw [hrest] at hspan
        cases hspan
      · refine ⟨outcome, houtcomes, fun hsuccess => absurd hsuccess hfail,
          fun _ => ⟨h.consumed, h.changes⟩, ?_⟩
        intro hthrew
        rw [if_pos hthrew] at hrejected
        exact ⟨h.changes, h.freed, h.accepted, hrejected⟩
  | cons event done =>
      simp only [List.map_cons, List.cons_append, List.cons.injEq] at hspan
      obtain ⟨hpayload, hnone⟩ := hspan
      obtain ⟨hdone, hrest⟩ := List.append_eq_nil_iff.mp hnone.symm
      rw [List.map_eq_nil_iff] at hdone
      subst hdone hrest
      rcases h.ended with ⟨_, houtcomes, _⟩ | ⟨hne, _⟩
      · exact ⟨_, houtcomes, fun _ => ⟨event, hpayload.symm, h.consumed, h.changes⟩,
          fun hfail => absurd rfl hfail, by simp⟩
      · exact absurd rfl hne

/-- The constructor of the event throws in its slot of the lock-free queue. -/
theorem all_or_nothing_throwing :
    ∃ r : CallRecord ℕ, (∃ outcome, AllOrNothing 5 r outcome) ∧ r.outcomes = [.threw] ∧
      r.changes.length = 12 := by
  obtain ⟨s₀, s, s', r, hs₀, hcall, hrun, hreturned, hp⟩ := exists_returned
    (PolicyKind.model (Fin 3) (Publication ℕ) (.lockFree 2) LockFreeQueue.admitted_two) smallSetup
    1 [(1, .constructed)] (.publish .tryEmplace 5 false)
    (List.flatten [advance 1 2, List.replicate 3 (1, .queue (.go false none)),
      [(1, .queue (.go true none))], List.replicate 5 (1, .queue (.go false none)), advance 1 1])
    (fun r => r.outcomes = [.threw] && r.changes.length = 12) (by decide +kernel)
  simp only [Bool.and_eq_true, decide_eq_true_eq] at hp
  exact ⟨r, all_or_nothing _ _ _ _ _ _ _ _ hs₀ hcall hrun hreturned, hp⟩

/-- `t` has called `try_publish_batch` in a run of the dispatcher and it has returned. -/
inductive BatchReturned {Q : QueuePolicy T (Publication E)} (M : QueueModel Q) (setup : Setup T)
    (t : T) : List E → CallRecord E → Prop
  /-- the loop over an empty span does nothing -/
  | empty : BatchReturned M setup t [] {}
  | call {payload : E} {rest : List E} {r : CallRecord E}
      {s₀ s s' : Config T (DispatcherMem Q) (ThreadLoc Q)}
      (hs₀ : (system setup Q).Reachable s₀)
      (hcall : (system setup Q).step s₀ (t, .call (.publishBatch payload rest)) = some s)
      (hrun : (watched M setup t).Steps (InCall t (s₀.loc t).stack) (s, {}) (s', r))
      (hreturned : (s'.loc t).stack = (s₀.loc t).stack) :
      BatchReturned M setup t (payload :: rest) r

/-- What a `try_publish_batch` of `span` that accepted `events` has done. -/
structure OrderedBatch (span : List E) (r : CallRecord E) (events : List (Publication E)) :
    Prop where
  le : events.length ≤ span.length
  payloads : events.map Publication.payload = span.take events.length
  /-- they are different elements, published one after the other -/
  ids : (events.map Publication.id).Pairwise (· < ·)
  /-- the steps of the call append them to the queue in this order and do nothing else -/
  entered : Appends r.changes events
  /-- no other event of the span is moved or copied from -/
  consumed : r.consumed = events
  accepted : r.accepted = UInt64.ofNat events.length
  /-- the call returns its result, or the attempt on the next event throws -/
  ended :
    (∃ status, tryPublishBatch span.length 0 span r.outcomes =
        some ⟨span.length, events.length, status⟩ ∧
      (status = .success ↔ events.length = span.length) ∧
      (events.length < span.length → r.outcomes[events.length]? = some (.returned status)) ∧
      r.rejected = if events.length < span.length then 1 else 0) ∨
    (tryPublishBatch span.length 0 span r.outcomes = none ∧ events.length < span.length ∧
      r.outcomes[events.length]? = some .threw ∧ r.rejected = 0)

omit [DecidableEq T] [Fintype T] in
/-- The loop of `try_publish_batch` counts the accepted events. -/
theorem tryPublishBatch_accepted (requested accepted : ℕ) (done rest : List E)
    (outcomes : List PushOutcome) :
    tryPublishBatch requested accepted (done ++ rest)
        (List.replicate done.length (.returned .success) ++ outcomes) =
      tryPublishBatch requested (accepted + done.length) rest outcomes := by
  induction done generalizing accepted with
  | nil => rfl
  | cons event done ih =>
      simp only [List.cons_append, List.length_cons, List.replicate_succ, tryPublishBatch]
      rw [ih, Nat.add_right_comm, Nat.add_assoc]

omit [DecidableEq T] [Fintype T] in
theorem Published.ordered {span rest : List E} {r : CallRecord E} {done : List (Publication E)}
    (h : Published span r done rest) : OrderedBatch span r done := by
  have hspan := h.span_eq
  have hlength : span.length = done.length + rest.length := by
    rw [hspan, List.length_append, List.length_map]
  have htake : done.map Publication.payload = span.take done.length := by
    rw [hspan, ← List.length_map Publication.payload, List.take_left]
  have hloop : ∀ outcomes, tryPublishBatch span.length 0 span
      (List.replicate done.length (.returned .success) ++ outcomes) =
        tryPublishBatch span.length done.length rest outcomes := by
    intro outcomes
    have haccepted := tryPublishBatch_accepted span.length 0 (done.map Publication.payload) rest
      outcomes
    rwa [← hspan, List.length_map, Nat.zero_add] at haccepted
  refine ⟨by omega, htake, h.ids, h.changes, h.consumed, h.accepted, ?_⟩
  rcases h.ended with ⟨hrest, houtcomes, hrejected⟩ | ⟨hrest, outcome, hfail, houtcomes, hrejected⟩
  · subst hrest
    rw [List.length_nil, Nat.add_zero] at hlength
    left
    refine ⟨.success, ?_, ?_, ?_, ?_⟩
    · rw [houtcomes, ← List.append_nil (List.replicate _ _), hloop]
      rfl
    · simp [hlength]
    · omega
    · rw [hrejected, if_neg (by omega)]
  · obtain ⟨payload, rest, rfl⟩ := List.exists_cons_of_ne_nil hrest
    rw [List.length_cons] at hlength
    have hnext : r.outcomes[done.length]? = some outcome := by
      rw [houtcomes, List.getElem?_append_right (by simp)]
      simp
    rw [houtcomes] at hnext ⊢
    rw [hloop]
    cases outcome with
    | returned status =>
        left
        refine ⟨status, ?_, ?_, fun _ => hnext, ?_⟩
        · cases status with
          | success => exact absurd rfl hfail
          | _ => rfl
        · constructor
          · intro hsuccess
            rw [hsuccess] at hfail
            exact absurd rfl hfail
          · omega
        · rw [hrejected, if_neg (by simp), if_pos (by omega)]
    | threw =>
        right
        exact ⟨rfl, by omega, hnext, by rw [hrejected, if_pos rfl]⟩

/-- **A batch is published as an ordered prefix**, over both queue policies, whatever the
other threads do in between. -/
theorem ordered_batch (policy : PolicyKind) (hpolicy : policy.Admitted) (setup : Setup T) (t : T)
    (span : List E) (r : CallRecord E)
    (h : BatchReturned (policy.model T (Publication E) hpolicy) setup t span r) :
    ∃ events, OrderedBatch span r events := by
  cases h with
  | empty =>
      have hnothing : Published ([] : List E) {} [] [] :=
        ⟨rfl, .nil, .none, rfl, rfl, rfl, .inl ⟨rfl, rfl, rfl⟩⟩
      exact ⟨[], hnothing.ordered⟩
  | call hs₀ hcall hrun hreturned =>
      obtain ⟨done, rest, h⟩ := published hs₀ rfl hcall hrun hreturned
      exact ⟨done, h.ordered⟩

/-- The queue has one slot: the first event of the batch takes it, the second is refused. -/
theorem ordered_batch_of_two :
    ∃ r : CallRecord ℕ, BatchReturned (PolicyKind.model (Fin 3) (Publication ℕ) (.mutex 1)
        Nat.one_ne_zero) smallSetup 1 [5, 6] r ∧ (∃ events, OrderedBatch [5, 6] r events) ∧
      r.consumed = [⟨0, 5⟩] ∧ r.outcomes = [.returned .success, .returned .full] ∧
      r.rejected = 1 := by
  obtain ⟨s₀, s, s', r, hs₀, hcall, hrun, hreturned, hp⟩ := exists_returned
    (PolicyKind.model (Fin 3) (Publication ℕ) (.mutex 1) Nat.one_ne_zero) smallSetup 1
    [(1, .constructed)] (.publishBatch 5 [6])
    (List.flatten [advance 1 2, [(1, .queue (.lock false)), (1, .queue (.notifyOne none))],
      advance 1 4, [(1, .queue (.lock false))], advance 1 2])
    (fun r => r.consumed = [⟨0, 5⟩] && r.outcomes = [.returned .success, .returned .full] &&
      r.rejected = 1) (by decide +kernel)
  simp only [Bool.and_eq_true, decide_eq_true_eq] at hp
  have hbatch := BatchReturned.call hs₀ hcall hrun hreturned
  exact ⟨r, hbatch, ordered_batch _ _ _ _ _ _ hbatch, hp.1.1, hp.1.2, hp.2⟩

end Claims

end Dispatcher

end EventDispatcher
