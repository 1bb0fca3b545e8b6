import EventDispatcher.Lib.Threads

/-!
# `worker_pool`

Any number of pools under any number of threads.  A pool has no lock of its own: whoever calls
`start`, `request_stop`, `join` past its guard, or the destructor must be alone in doing so, and
`turn` is the thread that is.  A worker function is user code, and may call into any pool, its own
one included; it runs inside a `worker_scope`, so the thread-local `current_pool_` says whose
worker the thread is.

A worker function that throws ends the program, and so does the destructor on a worker of the pool.
-/

namespace EventDispatcher

open Transition

/-- `worker_pool::implementation`, with the stop requests of its threads. -/
structure WorkerPool (T : Type) where
  workers : List T := []
  /-- the workers that are no longer joinable -/
  joined : Finset T := ∅
  stopRequested : Finset T := ∅
  /-- the thread that is inside a member function which uses the vector -/
  turn : Option T := none

/-- What the threads share.  `joins` records the pools that have been joined, with their workers;
no function of the source reads it. -/
structure PoolMem (T : Type) where
  pools : ℕ → WorkerPool T := fun _ => {}
  /-- the threads that can still be created -/
  unstarted : Finset T
  /-- the pool of a thread that has been created and has not begun -/
  entry : T → Option ℕ := fun _ => none
  finished : Finset T := ∅
  terminated : Bool := false
  joins : List (ℕ × List T) := []

/-- The body of a thread: `worker_scope`, the worker function, and `~worker_scope`. -/
inductive ScopePhase
  | enter
  | running (previous : Option ℕ)
  | leave (previous : Option ℕ)
  deriving DecidableEq

/-- A member function of pool `pool`. -/
inductive PoolCall (T : Type)
  | start (pool count : ℕ) (function : Bool)
  /-- the loop of `start`, with the number of threads to create -/
  | create (pool left : ℕ)
  | requestStop (pool : ℕ)
  | stopping (pool : ℕ) (todo : List T)
  | join (pool : ℕ)
  /-- past the guard -/
  | joinTurn (pool : ℕ)
  | joining (pool : ℕ) (todo : List T)
  | destroy (pool : ℕ)
  | destroyStopping (pool : ℕ) (todo : List T)
  | destroyGuard (pool : ℕ)
  deriving DecidableEq

/-- What a thread has of its own.  `last` is what its last call has returned. -/
structure PoolLoc (T : Type) where
  scope : Option (ℕ × ScopePhase) := none
  call : Option (PoolCall T) := none
  currentPool : Option ℕ := none
  last : Option (Except String Unit) := none

inductive PoolChoice (T : Type)
  /-- a created thread begins -/
  | begin
  | call (call : PoolCall T)
  /-- the worker function returns -/
  | finish
  /-- the next step; `flag` lets an allocation or a thread creation fail, `thread` is the thread
  that is created -/
  | go (flag : Bool) (thread : Option T)

namespace PoolMem

variable {T : Type}

/-- Writes pool `p`. -/
@[simps]
def setPool (m : PoolMem T) (p : ℕ) (pool : WorkerPool T) : PoolMem T :=
  { m with pools := Function.update m.pools p pool }

/-- `workers.emplace_back`. -/
@[simps]
def create [DecidableEq T] (m : PoolMem T) (p : ℕ) (u : T) : PoolMem T :=
  { m with
    pools := Function.update m.pools p { m.pools p with workers := (m.pools p).workers ++ [u] }
    unstarted := m.unstarted.erase u
    entry := Function.update m.entry u (some p) }

end PoolMem

namespace PoolLoc

variable {T : Type}

/-- `is_worker_thread` of pool `p`. -/
def isWorkerThread (l : PoolLoc T) (p : ℕ) : Bool := l.currentPool = some p

/-- User code is running: the thread has no call under way, and is a client or in its worker
function. -/
def user (l : PoolLoc T) (client : Prop) [Decidable client] : Bool :=
  l.call.isNone && match l.scope with
    | none => decide client
    | some (_, .running _) => true
    | _ => false

/-- Ends the call with its result. -/
def return_ (l : PoolLoc T) (result : Except String Unit) : PoolLoc T :=
  { l with call := none, last := some result }

end PoolLoc

namespace PoolCall

variable {T : Type}

/-- A call that user code can make. -/
def entry : PoolCall T → Bool
  | .start _ _ _ => true
  | .requestStop _ => true
  | .join _ => true
  | .destroy _ => true
  | _ => false

/-- The pool whose vector the call uses, and whose turn it has therefore taken. -/
def uses : PoolCall T → Option ℕ
  | .create p _ => some p
  | .stopping p _ => some p
  | .joining p _ => some p
  | .destroyStopping p _ => some p
  | .destroyGuard p => some p
  | _ => none

/-- The pool that the call is going to join, or is joining. -/
def joinsPool : PoolCall T → Option ℕ
  | .joinTurn p => some p
  | .joining p _ => some p
  | _ => none

end PoolCall

namespace WorkerPools

variable {T : Type} [DecidableEq T]

/-- The next step of a member function. -/
def stepCall (t : T) (flag : Bool) (thread : Option T) (m : PoolMem T) (l : PoolLoc T) :
    PoolCall T → Option (PoolMem T × PoolLoc T)
  | .start p count function =>
      if (m.pools p).turn = none then
        if count = 0 then
          some (m, l.return_ (.error "worker_pool requires at least one worker"))
        else if function = false then
          some (m, l.return_ (.error "worker_pool requires a worker function"))
        else if (m.pools p).workers ≠ [] then
          some (m, l.return_ (.error "worker_pool can only be started once"))
        else if flag then some (m, l.return_ (.error "std::bad_alloc"))
        else some (m.setPool p { m.pools p with turn := some t },
          { l with call := some (.create p count) })
      else none
  | .create p 0 => some (m.setPool p { m.pools p with turn := none }, l.return_ (.ok ()))
  | .create p (left + 1) =>
      if flag then
        some (m.setPool p { m.pools p with turn := none },
          l.return_ (.error "std::system_error"))
      else match thread with
      | some u =>
          if u ∈ m.unstarted then some (m.create p u, { l with call := some (.create p left) })
          else none
      | none => none
  | .requestStop p =>
      if (m.pools p).turn = none then
        some (m.setPool p { m.pools p with turn := some t },
          { l with call := some (.stopping p (m.pools p).workers) })
      else none
  | .stopping p (u :: todo) =>
      some (m.setPool p { m.pools p with stopRequested := insert u (m.pools p).stopRequested },
        { l with call := some (.stopping p todo) })
  | .stopping p [] => some (m.setPool p { m.pools p with turn := none }, l.return_ (.ok ()))
  | .join p =>
      if l.isWorkerThread p then
        some (m, l.return_ (.error "a worker cannot join its own worker_pool"))
      else some (m, { l with call := some (.joinTurn p) })
  | .joinTurn p =>
      if (m.pools p).turn = none then
        some (m.setPool p { m.pools p with turn := some t },
          { l with call := some (.joining p (m.pools p).workers) })
      else none
  | .joining p (u :: todo) =>
      if u ∈ (m.pools p).joined then some (m, { l with call := some (.joining p todo) })
      else if u ∈ m.finished then
        some (m.setPool p { m.pools p with joined := insert u (m.pools p).joined },
          { l with call := some (.joining p todo) })
      else none
  | .joining p [] =>
      some ({ m.setPool p { m.pools p with turn := none } with
        joins := m.joins ++ [(p, (m.pools p).workers)] }, l.return_ (.ok ()))
  | .destroy p =>
      if (m.pools p).turn = none then
        some (m.setPool p { m.pools p with turn := some t },
          { l with call := some (.destroyStopping p (m.pools p).workers) })
      else none
  | .destroyStopping p (u :: todo) =>
      some (m.setPool p { m.pools p with stopRequested := insert u (m.pools p).stopRequested },
        { l with call := some (.destroyStopping p todo) })
  | .destroyStopping p [] => some (m, { l with call := some (.destroyGuard p) })
  | .destroyGuard p =>
      if l.isWorkerThread p then some ({ m with terminated := true }, l)
      else some (m, { l with call := some (.joining p (m.pools p).workers) })

/-- One step of one thread; `owned` are the threads that pools create. -/
def step (owned : Finset T) (t : T) (c : PoolChoice T) (m : PoolMem T) (l : PoolLoc T) :
    Option (PoolMem T × PoolLoc T) :=
  if m.terminated then none
  else match c, l.scope with
  | .begin, none =>
      if l.call = none then
        (m.entry t).map fun p =>
          ({ m with entry := Function.update m.entry t none },
            { l with scope := some (p, .enter) })
      else none
  | .finish, some (p, .running previous) =>
      if l.call = none then some (m, { l with scope := some (p, .leave previous) }) else none
  | .call call, _ =>
      if l.user (t ∉ owned) ∧ call.entry then some (m, { l with call := some call })
      else none
  | .go flag thread, scope =>
      match l.call, scope with
      | some call, _ => stepCall t flag thread m l call
      | none, some (p, .enter) =>
          some (m, { l with
            scope := some (p, .running l.currentPool)
            currentPool := some p })
      | none, some (_, .leave previous) =>
          some ({ m with finished := insert t m.finished },
            { l with scope := none, currentPool := previous })
      | _, _ => none
  | _, _ => none

/-- Any interleaving of the threads. -/
def system (owned : Finset T) : System (Config T (PoolMem T) (PoolLoc T)) (T × PoolChoice T) :=
  interleave (step owned) fun s => s = ⟨{ unstarted := owned }, fun _ => {}⟩

/-- What a step of a member function can do. -/
structure CallEffect (t : T) (m : PoolMem T) (l : PoolLoc T) (c : PoolCall T) (m' : PoolMem T)
    (l' : PoolLoc T) : Prop where
  scope : l'.scope = l.scope
  currentPool : l'.currentPool = l.currentPool
  finished : m'.finished = m.finished
  created : ((∀ p, (m'.pools p).workers = (m.pools p).workers) ∧ m'.unstarted = m.unstarted ∧
      m'.entry = m.entry) ∨
    ∃ p left, ∃ u ∈ m.unstarted, c = .create p (left + 1) ∧ m' = m.create p u ∧
      l'.call = some (.create p left)
  uses : ∀ p, l'.call.bind PoolCall.uses = some p →
    (c.uses = some p ∧ (m'.pools p).turn = (m.pools p).turn) ∨
      ((m.pools p).turn = none ∧ (m'.pools p).turn = some t)
  turn : ∀ p, (m'.pools p).turn = (m.pools p).turn ∨ (m.pools p).turn = none ∨ c.uses = some p
  guard : ∀ p, l'.call.bind PoolCall.joinsPool = some p →
    c.joinsPool = some p ∨ l.currentPool ≠ some p
  joining : ∀ p todo, l'.call = some (.joining p todo) → todo = (m.pools p).workers ∨
    ∃ u, c = .joining p (u :: todo) ∧ (u ∈ (m.pools p).joined ∨ u ∈ m.finished)
  joined : ∀ p, ∀ u ∈ (m'.pools p).joined, u ∈ (m.pools p).joined ∨ u ∈ m.finished
  joins : m'.joins = m.joins ∨
    ∃ p, c = .joining p [] ∧ m'.joins = m.joins ++ [(p, (m.pools p).workers)]

section Effects

variable {t : T} {flag : Bool} {thread : Option T} {m m' : PoolMem T} {l l' : PoolLoc T}
  {c : PoolCall T}

/-- A step that leaves the vectors alone and changes at most one pool. -/
theorem effect_of_pool {p : ℕ} {pool : WorkerPool T} {joins : List (ℕ × List T)}
    (hscope : l'.scope = l.scope) (hcurrent : l'.currentPool = l.currentPool)
    (hworkers : pool.workers = (m.pools p).workers)
    (hturn : pool.turn = (m.pools p).turn ∨ (m.pools p).turn = none ∨ c.uses = some p)
    (huses : ∀ q, l'.call.bind PoolCall.uses = some q → q = p ∧
      ((c.uses = some p ∧ pool.turn = (m.pools p).turn) ∨
        ((m.pools p).turn = none ∧ pool.turn = some t)))
    (hguard : ∀ q, l'.call.bind PoolCall.joinsPool = some q →
      c.joinsPool = some q ∨ l.currentPool ≠ some q)
    (hjoining : ∀ q todo, l'.call = some (.joining q todo) → todo = (m.pools q).workers ∨
      ∃ u, c = .joining q (u :: todo) ∧ (u ∈ (m.pools q).joined ∨ u ∈ m.finished))
    (hjoined : ∀ u ∈ pool.joined, u ∈ (m.pools p).joined ∨ u ∈ m.finished)
    (hjoins : joins = m.joins ∨
      ∃ q, c = .joining q [] ∧ joins = m.joins ++ [(q, (m.pools q).workers)]) :
    CallEffect t m l c { m.setPool p pool with joins := joins } l' := by
  have hother : ∀ q, q ≠ p → Function.update m.pools p pool q = m.pools q :=
    fun q hq => Function.update_of_ne hq _ _
  refine
    { scope := hscope
      currentPool := hcurrent
      finished := rfl
      created := .inl ⟨?_, rfl, rfl⟩
      uses := ?_
      turn := ?_
      guard := hguard
      joining := hjoining
      joined := ?_
      joins := hjoins }
  · intro q
    by_cases hq : q = p
    · subst hq
      simp [hworkers]
    · simp [hother q hq]
  · intro q hq
    obtain ⟨rfl, heffect⟩ := huses q hq
    simpa using heffect
  · intro q
    by_cases hq : q = p
    · subst hq
      simpa using hturn
    · simp [hother q hq]
  · intro q u hu
    by_cases hq : q = p
    · subst hq
      exact hjoined u (by simpa using hu)
    · simp only [PoolMem.setPool_pools, hother q hq] at hu
      exact .inl hu

/-- A step that leaves the memory alone. -/
theorem effect_of_loc (hscope : l'.scope = l.scope) (hcurrent : l'.currentPool = l.currentPool)
    (huses : ∀ q, l'.call.bind PoolCall.uses = some q → c.uses = some q)
    (hguard : ∀ q, l'.call.bind PoolCall.joinsPool = some q →
      c.joinsPool = some q ∨ l.currentPool ≠ some q)
    (hjoining : ∀ q todo, l'.call = some (.joining q todo) → todo = (m.pools q).workers ∨
      ∃ u, c = .joining q (u :: todo) ∧ (u ∈ (m.pools q).joined ∨ u ∈ m.finished)) :
    CallEffect t m l c m l' where
  scope := hscope
  currentPool := hcurrent
  finished := rfl
  created := .inl ⟨fun _ => rfl, rfl, rfl⟩
  uses p hp := .inl ⟨huses p hp, rfl⟩
  turn _ := .inl rfl
  guard := hguard
  joining := hjoining
  joined _ _ hu := .inl hu
  joins := .inl rfl

/-- A thread is created. -/
theorem effect_of_create {p left : ℕ} {u : T} (hu : u ∈ m.unstarted) :
    CallEffect t m l (.create p (left + 1)) (m.create p u)
      { l with call := some (.create p left) } := by
  have hother : ∀ q, q ≠ p → (m.create p u).pools q = m.pools q :=
    fun q hq => Function.update_of_ne hq _ _
  have hturn : ∀ q, ((m.create p u).pools q).turn = (m.pools q).turn := by
    intro q
    by_cases hq : q = p
    · subst hq
      simp
    · rw [hother q hq]
  refine
    { scope := rfl
      currentPool := rfl
      finished := rfl
      created := .inr ⟨p, left, u, hu, rfl, rfl, rfl⟩
      uses := ?_
      turn := fun q => .inl (hturn q)
      guard := by simp [PoolCall.joinsPool]
      joining := by simp
      joined := ?_
      joins := .inl rfl }
  · intro q hq
    exact .inl ⟨hq, hturn q⟩
  · intro q v hv
    by_cases hq : q = p
    · subst hq
      exact .inl (by simpa using hv)
    · rw [hother q hq] at hv
      exact .inl hv

/-- A member function returns. -/
theorem effect_of_return (result : Except String Unit) :
    CallEffect t m l c m (l.return_ result) :=
  effect_of_loc rfl rfl (by simp [PoolLoc.return_]) (by simp [PoolLoc.return_])
    (by simp [PoolLoc.return_])

/-- A member function returns, and with it its caller's turn ends. -/
theorem effect_of_release {p : ℕ} (result : Except String Unit) (huses : c.uses = some p) :
    CallEffect t m l c (m.setPool p { m.pools p with turn := none }) (l.return_ result) :=
  effect_of_pool rfl rfl rfl (.inr (.inr huses)) (by simp [PoolLoc.return_])
    (by simp [PoolLoc.return_]) (by simp [PoolLoc.return_]) (fun _ hu => .inl hu) (.inl rfl)

/-- A member function begins in its caller's turn and goes on with `c'`. -/
theorem effect_of_turn {p : ℕ} {c' : PoolCall T} (hturn : (m.pools p).turn = none)
    (huses : c'.uses = some p) (hguard : ∀ q, c'.joinsPool = some q → c.joinsPool = some q)
    (hjoining : ∀ q todo, c' = .joining q todo → todo = (m.pools q).workers) :
    CallEffect t m l c (m.setPool p { m.pools p with turn := some t })
      { l with call := some c' } := by
  refine effect_of_pool rfl rfl rfl (.inr (.inl hturn)) ?_ ?_ ?_ (fun u hu => .inl hu) (.inl rfl)
  · intro q hq
    have hq : PoolCall.uses c' = some q := hq
    rw [huses] at hq
    exact ⟨(Option.some.inj hq).symm, .inr ⟨hturn, rfl⟩⟩
  · exact fun q hq => .inl (hguard q hq)
  · exact fun q todo hq => .inl (hjoining q todo (Option.some.inj hq))

/-- `join` passes the next thread of the vector, or all of them have been passed. -/
theorem joining_effect {p : ℕ} {todo : List T}
    (h : stepCall t flag thread m l (.joining p todo) = some (m', l')) :
    CallEffect t m l (.joining p todo) m' l' := by
  cases todo with
  | nil =>
      cases h
      exact effect_of_pool rfl rfl rfl (.inr (.inr rfl)) (by simp [PoolLoc.return_])
        (by simp [PoolLoc.return_]) (by simp [PoolLoc.return_]) (fun u hu => .inl hu)
        (.inr ⟨p, rfl, rfl⟩)
  | cons u todo =>
      simp only [stepCall] at h
      split at h
      · next hjoined =>
          cases h
          refine effect_of_loc rfl rfl (fun q hq => hq) (fun q hq => .inl hq) ?_
          intro q todo' hq
          cases hq
          exact .inr ⟨u, rfl, .inl hjoined⟩
      · split at h
        · next hfinished =>
            cases h
            refine effect_of_pool rfl rfl rfl (.inl rfl) ?_ (fun q hq => .inl hq) ?_ ?_ (.inl rfl)
            · intro q hq
              cases hq
              exact ⟨rfl, .inl ⟨rfl, rfl⟩⟩
            · intro q todo' hq
              cases hq
              exact .inr ⟨u, rfl, .inr hfinished⟩
            · intro v hv
              obtain rfl | hv := Finset.mem_insert.mp hv
              · exact .inr hfinished
              · exact .inl hv
        · cases h

/-- **The steps of a member function.** -/
theorem stepCall_effect (hl : l.call = some c)
    (h : stepCall t flag thread m l c = some (m', l')) : CallEffect t m l c m' l' := by
  cases c with
  | start p count function =>
      simp only [stepCall] at h
      split at h
      · next hturn =>
          split at h
          · cases h; exact effect_of_return _
          · split at h
            · cases h; exact effect_of_return _
            · split at h
              · cases h; exact effect_of_return _
              · split at h
                · cases h; exact effect_of_return _
                · cases h
                  exact effect_of_turn hturn rfl (by simp [PoolCall.joinsPool]) (by simp)
      · cases h
  | create p left =>
      cases left with
      | zero => cases h; exact effect_of_release _ rfl
      | succ left =>
          simp only [stepCall] at h
          split at h
          · cases h; exact effect_of_release _ rfl
          · split at h
            · split at h
              · next u hu =>
                  cases h
                  exact effect_of_create hu
              · cases h
            · cases h
  | requestStop p =>
      simp only [stepCall] at h
      split at h
      · next hturn =>
          cases h
          exact effect_of_turn hturn rfl (by simp [PoolCall.joinsPool]) (by simp)
      · cases h
  | stopping p todo =>
      cases todo with
      | nil => cases h; exact effect_of_release _ rfl
      | cons u todo =>
          cases h
          exact effect_of_pool rfl rfl rfl (.inl rfl) (by simp [PoolCall.uses])
            (by simp [PoolCall.joinsPool]) (by simp) (fun u hu => .inl hu) (.inl rfl)
  | join p =>
      simp only [stepCall] at h
      split at h
      · cases h; exact effect_of_return _
      · next hguard =>
          cases h
          refine effect_of_loc rfl rfl (by simp [PoolCall.uses]) ?_ (by simp)
          intro q hq
          cases hq
          exact .inr (by simpa [PoolLoc.isWorkerThread] using hguard)
  | joinTurn p =>
      simp only [stepCall] at h
      split at h
      · next hturn =>
          cases h
          refine effect_of_turn hturn rfl (fun q hq => hq) ?_
          intro q todo hq
          cases hq
          rfl
      · cases h
  | joining p todo => exact joining_effect h
  | destroy p =>
      simp only [stepCall] at h
      split at h
      · next hturn =>
          cases h
          exact effect_of_turn hturn rfl (by simp [PoolCall.joinsPool]) (by simp)
      · cases h
  | destroyStopping p todo =>
      cases todo with
      | nil =>
          cases h
          exact effect_of_loc rfl rfl (fun q hq => hq) (by simp [PoolCall.joinsPool]) (by simp)
      | cons u todo =>
          cases h
          exact effect_of_pool rfl rfl rfl (.inl rfl) (by simp [PoolCall.uses])
            (by simp [PoolCall.joinsPool]) (by simp) (fun u hu => .inl hu) (.inl rfl)
  | destroyGuard p =>
      simp only [stepCall] at h
      split at h
      · cases h
        have hsame : CallEffect t m l (.destroyGuard p) m l :=
          effect_of_loc rfl rfl (by simp [hl]) (by simp [hl, PoolCall.joinsPool]) (by simp [hl])
        exact { hsame with created := .inl ⟨fun _ => rfl, rfl, rfl⟩ }
      · next hguard =>
          cases h
          refine effect_of_loc rfl rfl (fun q hq => hq) ?_ ?_
          · intro q hq
            cases hq
            exact .inr (by simpa [PoolLoc.isWorkerThread] using hguard)
          · intro q todo hq
            cases hq
            exact .inl rfl

end Effects

/-- The steps of a thread. -/
inductive PoolStep (owned : Finset T) (t : T) (m : PoolMem T) (l : PoolLoc T) :
    PoolMem T → PoolLoc T → Prop
  | begin {p : ℕ} (hscope : l.scope = none) (hcall : l.call = none) (hentry : m.entry t = some p) :
      PoolStep owned t m l { m with entry := Function.update m.entry t none }
        { l with scope := some (p, .enter) }
  | enter {p : ℕ} (hcall : l.call = none) (hscope : l.scope = some (p, .enter)) :
      PoolStep owned t m l m
        { l with scope := some (p, .running l.currentPool), currentPool := some p }
  | finish {p : ℕ} {previous : Option ℕ} (hcall : l.call = none)
      (hscope : l.scope = some (p, .running previous)) :
      PoolStep owned t m l m { l with scope := some (p, .leave previous) }
  | leave {p : ℕ} {previous : Option ℕ} (hcall : l.call = none)
      (hscope : l.scope = some (p, .leave previous)) :
      PoolStep owned t m l { m with finished := insert t m.finished }
        { l with scope := none, currentPool := previous }
  | call {c : PoolCall T} (huser : l.user (t ∉ owned) = true) (hentry : c.entry = true) :
      PoolStep owned t m l m { l with call := some c }
  | member {c : PoolCall T} {m' : PoolMem T} {l' : PoolLoc T} (hcall : l.call = some c)
      (heffect : CallEffect t m l c m' l') : PoolStep owned t m l m' l'

/-- `step` takes the steps of the relation and no others. -/
theorem step_sound {owned : Finset T} {t : T} {c : PoolChoice T} {m m' : PoolMem T}
    {l l' : PoolLoc T} (h : step owned t c m l = some (m', l')) : PoolStep owned t m l m' l' := by
  simp only [step] at h
  split at h
  · cases h
  · split at h
    · next hscope =>
        split at h
        · next hcall =>
            obtain ⟨p, hentry, heq⟩ := Option.map_eq_some_iff.mp h
            cases heq
            exact .begin hscope hcall hentry
        · cases h
    · next hscope =>
        split at h
        · next hcall => cases h; exact .finish hcall hscope
        · cases h
    · split at h
      · next huser => cases h; exact .call huser.1 huser.2
      · cases h
    · next hscope =>
        split at h
        · next hcall => exact .member hcall (stepCall_effect hcall h)
        · next hcall hscope => cases h; exact .enter hcall hscope
        · next hcall hscope => cases h; exact .leave hcall hscope
        · cases h
    · cases h

/-- `current_pool_` is the pool of the scope that the thread is in, and null outside. -/
def Scoped (l : PoolLoc T) : Prop :=
  match l.scope with
  | some (p, .running previous) => l.currentPool = some p ∧ previous = none
  | some (p, .leave previous) => l.currentPool = some p ∧ previous = none
  | _ => l.currentPool = none

omit [DecidableEq T] in
/-- `is_worker_thread` holds inside a worker function of the pool, and on the way out of it. -/
theorem Scoped.isWorkerThread_iff {l : PoolLoc T} (h : Scoped l) (p : ℕ) :
    l.isWorkerThread p = true ↔
      ∃ previous, l.scope = some (p, .running previous) ∨ l.scope = some (p, .leave previous) := by
  unfold Scoped at h
  rw [PoolLoc.isWorkerThread, decide_eq_true_iff]
  split at h
  · next q previous hscope =>
      rw [h.1, hscope]
      simp
  · next q previous hscope =>
      rw [h.1, hscope]
      simp
  · next hrunning hleave =>
      rw [h]
      refine ⟨fun hnone => (by cases hnone), ?_⟩
      intro hinside
      obtain ⟨previous, hscope | hscope⟩ := hinside
      · exact absurd hscope (hrunning p previous)
      · exact absurd hscope (hleave p previous)

/-- Where a thread stands that has a call under way. -/
def Calling (owned : Finset T) (t : T) (l : PoolLoc T) : Prop :=
  l.call ≠ none → (l.scope = none ∧ t ∉ owned) ∨ ∃ p previous, l.scope = some (p, .running previous)

section Invariants

variable {owned : Finset T} {s : Config T (PoolMem T) (PoolLoc T)}
  {ok : Config T (PoolMem T) (PoolLoc T) → T × PoolChoice T → Prop}

/-- **Step lemma** for one thread. -/
theorem PoolStep.scoped {t : T} {m m' : PoolMem T} {l l' : PoolLoc T}
    (h : PoolStep owned t m l m' l') (hl : Scoped l ∧ Calling owned t l) :
    Scoped l' ∧ Calling owned t l' := by
  obtain ⟨hscoped, hcalling⟩ := hl
  unfold Scoped at hscoped
  cases h with
  | begin hscope hcall =>
      rw [hscope] at hscoped
      exact ⟨hscoped, fun hne => absurd hcall hne⟩
  | enter hcall hscope =>
      rw [hscope] at hscoped
      exact ⟨⟨rfl, hscoped⟩, fun hne => absurd hcall hne⟩
  | finish hcall hscope =>
      rw [hscope] at hscoped
      exact ⟨hscoped, fun hne => absurd hcall hne⟩
  | leave hcall hscope =>
      rw [hscope] at hscoped
      exact ⟨hscoped.2, fun hne => absurd hcall hne⟩
  | call huser hentry =>
      refine ⟨hscoped, fun _ => ?_⟩
      simp only [PoolLoc.user, Bool.and_eq_true] at huser
      obtain ⟨_, huser⟩ := huser
      split at huser
      · next hscope => exact .inl ⟨hscope, of_decide_eq_true huser⟩
      · next hscope => exact .inr ⟨_, _, hscope⟩
      · cases huser
  | member hcall heffect =>
      refine ⟨?_, fun _ => ?_⟩
      · unfold Scoped
        rw [heffect.scope, heffect.currentPool]
        exact hscoped
      · rw [heffect.scope]
        exact hcalling (by rw [hcall]; simp)

/-- **Run lemma** for the threads. -/
theorem scoped_reach : ∀ s, (system owned).Reach ok s →
    ∀ t, Scoped (s.loc t) ∧ Calling owned t (s.loc t) := by
  refine interleave_invariant ?_ ?_
  · intro s hs t
    rw [show s = _ from hs]
    exact ⟨rfl, fun hne => absurd rfl hne⟩
  · intro s t c m l _ hinv _ hstep
    refine (Function.forall_update_iff s.loc fun t l => Scoped l ∧ Calling owned t l).mpr
      ⟨(step_sound hstep).scoped (hinv t), fun u _ => hinv u⟩

/-- Which threads are workers, and of which pool. -/
structure Staffed (owned : Finset T) (s : Config T (PoolMem T) (PoolLoc T)) : Prop where
  hired : ∀ p, ∀ w ∈ (s.mem.pools p).workers, w ∈ owned ∧ w ∉ s.mem.unstarted
  fresh : ∀ w ∈ s.mem.unstarted, w ∈ owned
  nodup : ∀ p, (s.mem.pools p).workers.Nodup
  disjoint : ∀ p q, ∀ w ∈ (s.mem.pools p).workers, w ∈ (s.mem.pools q).workers → p = q
  entries : ∀ t p, s.mem.entry t = some p → t ∈ (s.mem.pools p).workers
  placed : ∀ t p phase, (s.loc t).scope = some (p, phase) → t ∈ (s.mem.pools p).workers
  alive : ∀ p, ∀ w ∈ (s.mem.pools p).workers, s.mem.entry w = some p ∨
    (∃ phase, (s.loc w).scope = some (p, phase)) ∨ w ∈ s.mem.finished

/-- The scopes after a step of `t`. -/
theorem scope_update {t : T} {l : PoolLoc T} (hsame : l.scope = (s.loc t).scope) (u : T) :
    (Function.update s.loc t l u).scope = (s.loc u).scope := by
  by_cases hut : u = t
  · subst hut
    rw [Function.update_self, hsame]
  · rw [Function.update_of_ne hut]

/-- The staff after a step that changes neither the vectors nor the scopes. -/
theorem Staffed.keep (h : Staffed owned s) {t : T} {m : PoolMem T} {l : PoolLoc T}
    (hworkers : ∀ p, (m.pools p).workers = (s.mem.pools p).workers)
    (hunstarted : m.unstarted = s.mem.unstarted) (hentry : m.entry = s.mem.entry)
    (hfinished : m.finished = s.mem.finished) (hscope : l.scope = (s.loc t).scope) :
    Staffed owned ⟨m, Function.update s.loc t l⟩ := by
  obtain ⟨hhired, hfresh, hnodup, hdisjoint, hentries, hplaced, halive⟩ := h
  refine ⟨?_, ?_, ?_, ?_, ?_, ?_, ?_⟩ <;>
    simp only [hworkers, hunstarted, hentry, hfinished, scope_update hscope] <;> assumption

/-- The staff after a thread has been created. -/
theorem Staffed.create (h : Staffed owned s) {t : T} {l : PoolLoc T} {p : ℕ} {u : T}
    (hu : u ∈ s.mem.unstarted) (hscope : l.scope = (s.loc t).scope) :
    Staffed owned ⟨s.mem.create p u, Function.update s.loc t l⟩ := by
  have hworkers : ∀ q, ∀ w ∈ ((s.mem.create p u).pools q).workers,
      w ∈ (s.mem.pools q).workers ∨ (q = p ∧ w = u) := by
    intro q w hw
    by_cases hq : q = p
    · subst hq
      simp only [PoolMem.create_pools, Function.update_self] at hw
      obtain hw | hw := List.mem_append.mp hw
      · exact .inl hw
      · exact .inr ⟨rfl, List.mem_singleton.mp hw⟩
    · simp only [PoolMem.create_pools, Function.update_of_ne hq] at hw
      exact .inl hw
  have hkept : ∀ q, ∀ w ∈ (s.mem.pools q).workers, w ∈ ((s.mem.create p u).pools q).workers := by
    intro q w hw
    by_cases hq : q = p
    · subst hq
      simp [hw]
    · simpa [Function.update_of_ne hq] using hw
  have hnew : u ∈ ((s.mem.create p u).pools p).workers := by simp
  have hout : ∀ q, u ∉ (s.mem.pools q).workers := fun q hin => (h.hired q u hin).2 hu
  refine ⟨?_, ?_, ?_, ?_, ?_, ?_, ?_⟩
  · intro q w hw
    simp only [PoolMem.create_unstarted, Finset.mem_erase]
    obtain hw | ⟨_, rfl⟩ := hworkers q w hw
    · exact ⟨(h.hired q w hw).1, fun hin => (h.hired q w hw).2 hin.2⟩
    · exact ⟨h.fresh w hu, fun hin => hin.1 rfl⟩
  · intro w hw
    exact h.fresh w (Finset.mem_of_mem_erase hw)
  · intro q
    by_cases hq : q = p
    · subst hq
      simp only [PoolMem.create_pools, Function.update_self]
      exact List.nodup_append.mpr ⟨h.nodup q, List.nodup_singleton u, by
        intro a ha b hb hab
        rw [List.mem_singleton.mp hb] at hab
        exact hout q (hab ▸ ha)⟩
    · simpa [Function.update_of_ne hq] using h.nodup q
  · intro q q' w hw hw'
    obtain hbefore | ⟨hq, hwu⟩ := hworkers q w hw
    · obtain hbefore' | ⟨_, hwu⟩ := hworkers q' w hw'
      · exact h.disjoint q q' w hbefore hbefore'
      · exact absurd (hwu ▸ hbefore) (hout q)
    · obtain hbefore' | ⟨hq', _⟩ := hworkers q' w hw'
      · exact absurd (hwu ▸ hbefore') (hout q')
      · rw [hq, hq']
  · intro v q hentry
    simp only [PoolMem.create_entry] at hentry
    by_cases hv : v = u
    · subst hv
      rw [Function.update_self] at hentry
      cases hentry
      exact hnew
    · rw [Function.update_of_ne hv] at hentry
      exact hkept q v (h.entries v q hentry)
  · intro v q phase hv
    rw [scope_update hscope] at hv
    exact hkept q v (h.placed v q phase hv)
  · intro q w hw
    simp only [PoolMem.create_entry, PoolMem.create_finished, scope_update hscope]
    obtain hw | ⟨rfl, rfl⟩ := hworkers q w hw
    · have hwu : w ≠ u := by
        intro heq
        exact hout q (heq ▸ hw)
      rw [Function.update_of_ne hwu]
      exact h.alive q w hw
    · rw [Function.update_self]
      exact .inl rfl

/-- The staff after a step of `t` through its scope. -/
theorem Staffed.move (h : Staffed owned s) {t : T} {m : PoolMem T} {l : PoolLoc T} {p : ℕ}
    (hpools : m.pools = s.mem.pools) (hunstarted : m.unstarted = s.mem.unstarted)
    (hin : t ∈ (s.mem.pools p).workers)
    (hentry : ∀ u q, m.entry u = some q → s.mem.entry u = some q)
    (hentry' : ∀ u ≠ t, m.entry u = s.mem.entry u)
    (hscope : ∀ q phase, l.scope = some (q, phase) → q = p)
    (hdone : (∃ phase, l.scope = some (p, phase)) ∨ t ∈ m.finished)
    (hfinished : s.mem.finished ⊆ m.finished) :
    Staffed owned ⟨m, Function.update s.loc t l⟩ := by
  refine ⟨?_, ?_, ?_, ?_, ?_, ?_, ?_⟩
  · simpa only [hpools, hunstarted] using h.hired
  · simpa only [hunstarted] using h.fresh
  · simpa only [hpools] using h.nodup
  · simpa only [hpools] using h.disjoint
  · intro u q hu
    simp only [hpools]
    exact h.entries u q (hentry u q hu)
  · intro u q phase hu
    simp only [hpools] at hu ⊢
    by_cases hut : u = t
    · subst hut
      rw [Function.update_self] at hu
      rw [hscope q phase hu]
      exact hin
    · rw [Function.update_of_ne hut] at hu
      exact h.placed u q phase hu
  · intro q w hw
    simp only [hpools] at hw ⊢
    by_cases hwt : w = t
    · subst hwt
      rw [Function.update_self, h.disjoint q p w hw hin]
      exact .inr hdone
    · rw [Function.update_of_ne hwt, hentry' w hwt]
      exact (h.alive q w hw).imp_right fun hor => hor.imp_right fun hgone => hfinished hgone

/-- **Run lemma** for the staff. -/
theorem staffed_reach : ∀ s, (system owned).Reach ok s → Staffed owned s := by
  refine interleave_invariant ?_ ?_
  · intro s hs
    rw [show s = _ from hs]
    exact ⟨by simp, by simp, by simp, by simp, by simp, by simp, by simp⟩
  · intro s t c m l _ hinv _ hstep
    cases step_sound hstep with
    | @begin p hscope hcall hentry =>
        refine hinv.move rfl rfl (hinv.entries t p hentry) ?_ ?_ ?_ (.inl ⟨_, rfl⟩) subset_rfl
        · intro u q hu
          simp only at hu
          by_cases hut : u = t
          · subst hut
            rw [Function.update_self] at hu
            cases hu
          · rwa [Function.update_of_ne hut] at hu
        · exact fun u hut => Function.update_of_ne hut _ _
        · intro q phase hq
          cases hq
          rfl
    | @enter p hcall hscope | @finish p _ hcall hscope =>
        refine hinv.move rfl rfl (hinv.placed t p _ hscope) (fun _ _ hu => hu) (fun _ _ => rfl) ?_
          (.inl ⟨_, rfl⟩) subset_rfl
        intro q phase hq
        cases hq
        rfl
    | @leave p _ hcall hscope =>
        refine hinv.move rfl rfl (hinv.placed t p _ hscope) (fun _ _ hu => hu) (fun _ _ => rfl) ?_
          (.inr (Finset.mem_insert_self t _)) (Finset.subset_insert t _)
        intro q phase hq
        cases hq
    | call huser hentry => exact hinv.keep (fun _ => rfl) rfl rfl rfl rfl
    | member hcall heffect =>
        obtain ⟨hworkers, hunstarted, hentry⟩ | ⟨p, left, u, hu, _, rfl, _⟩ := heffect.created
        · exact hinv.keep hworkers hunstarted hentry heffect.finished heffect.scope
        · exact hinv.create hu heffect.scope

/-- What the calls under way rely on, and what `join` has seen. -/
structure JoinInv (s : Config T (PoolMem T) (PoolLoc T)) : Prop where
  turn : ∀ t c p, (s.loc t).call = some c → c.uses = some p → (s.mem.pools p).turn = some t
  guard : ∀ t c p, (s.loc t).call = some c → c.joinsPool = some p →
    (s.loc t).currentPool ≠ some p
  progress : ∀ t p todo, (s.loc t).call = some (.joining p todo) →
    ∀ w ∈ (s.mem.pools p).workers, w ∈ todo ∨ w ∈ s.mem.finished
  joined : ∀ p, ∀ u ∈ (s.mem.pools p).joined, u ∈ s.mem.finished
  joins : ∀ b ∈ s.mem.joins, ∀ w ∈ b.2, w ∈ s.mem.finished

/-- The calls after a step of a thread without one. -/
theorem JoinInv.keep (h : JoinInv s) {t : T} {m : PoolMem T} {l : PoolLoc T}
    (hpools : m.pools = s.mem.pools) (hfinished : s.mem.finished ⊆ m.finished)
    (hjoins : m.joins = s.mem.joins)
    (hcall : ∀ c, l.call = some c → c.uses = none ∧ c.joinsPool = none) :
    JoinInv ⟨m, Function.update s.loc t l⟩ := by
  refine ⟨?_, ?_, ?_, ?_, ?_⟩
  · intro u c p hc huses
    simp only [hpools] at hc ⊢
    by_cases hut : u = t
    · subst hut
      rw [Function.update_self] at hc
      rw [(hcall c hc).1] at huses
      cases huses
    · rw [Function.update_of_ne hut] at hc
      exact h.turn u c p hc huses
  · intro u c p hc hpool
    simp only at hc ⊢
    by_cases hut : u = t
    · subst hut
      rw [Function.update_self] at hc
      rw [(hcall c hc).2] at hpool
      cases hpool
    · rw [Function.update_of_ne hut] at hc ⊢
      exact h.guard u c p hc hpool
  · intro u p todo hc w hw
    simp only [hpools] at hc hw
    by_cases hut : u = t
    · subst hut
      rw [Function.update_self] at hc
      cases (hcall _ hc).1
    · rw [Function.update_of_ne hut] at hc
      exact (h.progress u p todo hc w hw).imp_right fun hgone => hfinished hgone
  · intro p u hu
    simp only [hpools] at hu
    exact hfinished (h.joined p u hu)
  · intro b hb w hw
    simp only [hjoins] at hb
    exact hfinished (h.joins b hb w hw)

/-- Nobody else uses a pool that a step of a member function uses. -/
theorem JoinInv.turn_step (h : JoinInv s) {t : T} {c : PoolCall T} {m : PoolMem T} {l : PoolLoc T}
    (hcall : (s.loc t).call = some c) (heffect : CallEffect t s.mem (s.loc t) c m l) {u : T}
    {d : PoolCall T} {p : ℕ} (hd : (Function.update s.loc t l u).call = some d)
    (huses : d.uses = some p) : (m.pools p).turn = some u := by
  by_cases hut : u = t
  · subst hut
    rw [Function.update_self] at hd
    obtain ⟨hbefore, hsame⟩ | ⟨_, hmine⟩ := heffect.uses p (by rw [hd]; exact huses)
    · rw [hsame]
      exact h.turn u c p hcall hbefore
    · exact hmine
  · rw [Function.update_of_ne hut] at hd
    have hother := h.turn u d p hd huses
    obtain hsame | hnone | hmine := heffect.turn p
    · rw [hsame, hother]
    · rw [hother] at hnone
      cases hnone
    · rw [h.turn t c p hcall hmine] at hother
      exact absurd (Option.some.inj hother).symm hut

/-- Whoever goes on to `join` after a step of a member function is not a worker of the pool. -/
theorem JoinInv.guard_step (h : JoinInv s) {t : T} {c : PoolCall T} {m : PoolMem T} {l : PoolLoc T}
    (hcall : (s.loc t).call = some c) (heffect : CallEffect t s.mem (s.loc t) c m l) {u : T}
    {d : PoolCall T} {p : ℕ} (hd : (Function.update s.loc t l u).call = some d)
    (hpool : d.joinsPool = some p) : (Function.update s.loc t l u).currentPool ≠ some p := by
  by_cases hut : u = t
  · subst hut
    rw [Function.update_self] at hd ⊢
    rw [heffect.currentPool]
    obtain hbefore | hguard := heffect.guard p (by rw [hd]; exact hpool)
    · exact h.guard u c p hcall hbefore
    · exact hguard
  · rw [Function.update_of_ne hut] at hd ⊢
    exact h.guard u d p hd hpool

/-- What `join` has passed has finished, after a step of its own thread. -/
theorem JoinInv.progress_self (h : JoinInv s) {t : T} {c : PoolCall T} {m : PoolMem T}
    {l : PoolLoc T} (hcall : (s.loc t).call = some c)
    (heffect : CallEffect t s.mem (s.loc t) c m l) {p : ℕ} {todo : List T}
    (hd : l.call = some (.joining p todo)) :
    ∀ w ∈ (s.mem.pools p).workers, w ∈ todo ∨ w ∈ s.mem.finished := by
  intro w hw
  obtain rfl | ⟨v, hc, hv⟩ := heffect.joining p todo hd
  · exact .inl hw
  · rw [hc] at hcall
    obtain hw | hgone := h.progress t p _ hcall w hw
    · obtain rfl | hw := List.mem_cons.mp hw
      · exact .inr (hv.elim (h.joined p w) id)
      · exact .inl hw
    · exact .inr hgone

/-- What `join` has passed has finished, after a step of a member function. -/
theorem JoinInv.progress_step (h : JoinInv s) {t : T} {c : PoolCall T} {m : PoolMem T}
    {l : PoolLoc T} (hcall : (s.loc t).call = some c)
    (heffect : CallEffect t s.mem (s.loc t) c m l) {u : T} {p : ℕ} {todo : List T}
    (hd : (Function.update s.loc t l u).call = some (.joining p todo)) :
    ∀ w ∈ (m.pools p).workers, w ∈ todo ∨ w ∈ s.mem.finished := by
  intro w hw
  obtain ⟨hworkers, _, _⟩ | ⟨q, left, v, _, hc, hm, hl⟩ := heffect.created
  · rw [hworkers] at hw
    by_cases hut : u = t
    · subst hut
      rw [Function.update_self] at hd
      exact h.progress_self hcall heffect hd w hw
    · rw [Function.update_of_ne hut] at hd
      exact h.progress u p todo hd w hw
  · by_cases hut : u = t
    · subst hut
      rw [Function.update_self, hl] at hd
      cases hd
    · rw [Function.update_of_ne hut] at hd
      -- whoever creates a worker of `p` has the turn, and so has whoever joins `p`
      have hqp : q ≠ p := by
        intro hqp
        subst hqp
        have hmine := h.turn t c q hcall (by rw [hc]; rfl)
        rw [h.turn u _ q hd rfl] at hmine
        exact hut (Option.some.inj hmine)
      rw [hm, PoolMem.create_pools, Function.update_of_ne hqp.symm] at hw
      exact h.progress u p todo hd w hw

/-- The calls after a step of a member function. -/
theorem JoinInv.member (h : JoinInv s) {t : T} {c : PoolCall T} {m : PoolMem T} {l : PoolLoc T}
    (hcall : (s.loc t).call = some c) (heffect : CallEffect t s.mem (s.loc t) c m l) :
    JoinInv ⟨m, Function.update s.loc t l⟩ := by
  refine
    { turn := fun u d p hd huses => h.turn_step hcall heffect hd huses
      guard := fun u d p hd hpool => h.guard_step hcall heffect hd hpool
      progress := ?_
      joined := ?_
      joins := ?_ }
  · intro u p todo hd
    simp only [heffect.finished]
    exact h.progress_step hcall heffect hd
  · intro p u hu
    simp only [heffect.finished]
    exact (heffect.joined p u hu).elim (h.joined p u) id
  · intro b hb w hw
    simp only [heffect.finished] at hb ⊢
    obtain hsame | ⟨p, hc, hmore⟩ := heffect.joins
    · rw [hsame] at hb
      exact h.joins b hb w hw
    · rw [hmore] at hb
      obtain hb | hb := List.mem_append.mp hb
      · exact h.joins b hb w hw
      · rw [List.mem_singleton.mp hb] at hw
        rw [hc] at hcall
        exact (h.progress t p [] hcall w hw).resolve_left (by simp)

/-- **Run lemma** for the calls. -/
theorem joinInv_reach : ∀ s, (system owned).Reach ok s → JoinInv s := by
  refine interleave_invariant ?_ ?_
  · intro s hs
    rw [show s = _ from hs]
    exact ⟨by simp, by simp, by simp, by simp, by simp⟩
  · intro s t c m l _ hinv _ hstep
    have hnone : (s.loc t).call = none → ∀ c, (s.loc t).call = some c →
        c.uses = none ∧ c.joinsPool = none := by
      intro hcall c hc
      rw [hcall] at hc
      cases hc
    cases step_sound hstep with
    | begin hscope hcall | enter hcall hscope | finish hcall hscope =>
        exact hinv.keep rfl subset_rfl rfl (hnone hcall)
    | leave hcall hscope => exact hinv.keep rfl (Finset.subset_insert t _) rfl (hnone hcall)
    | call huser hentry =>
        refine hinv.keep rfl subset_rfl rfl ?_
        intro d hd
        cases hd
        cases ‹PoolCall T› <;> first | exact ⟨rfl, rfl⟩ | cases hentry
    | member hcall heffect => exact hinv.member hcall heffect

/-- What the pools promise to their users. -/
structure PoolsSound (s : Config T (PoolMem T) (PoolLoc T)) : Prop where
  /-- `is_worker_thread` holds inside a worker function of the pool, and on the way out of it -/
  inside : ∀ t p, (s.loc t).isWorkerThread p = true ↔
    ∃ previous, (s.loc t).scope = some (p, .running previous) ∨
      (s.loc t).scope = some (p, .leave previous)
  member : ∀ t p, (s.loc t).isWorkerThread p = true → t ∈ (s.mem.pools p).workers
  /-- no thread is a worker twice -/
  nodup : ∀ p, (s.mem.pools p).workers.Nodup
  disjoint : ∀ p q, ∀ w ∈ (s.mem.pools p).workers, w ∈ (s.mem.pools q).workers → p = q
  /-- a worker that has not finished has still to begin, or is inside its scope -/
  alive : ∀ p, ∀ w ∈ (s.mem.pools p).workers, s.mem.entry w = some p ∨
    (∃ phase, (s.loc w).scope = some (p, phase)) ∨ w ∈ s.mem.finished
  /-- nobody waits for itself -/
  others : ∀ t p todo, (s.loc t).call = some (.joining p todo) → t ∉ (s.mem.pools p).workers
  /-- a pool that has been joined had finished -/
  joins : ∀ b ∈ s.mem.joins, ∀ w ∈ b.2, w ∈ s.mem.finished

/-- **Run theorem.** -/
theorem pools_sound (hs : (system owned).Reachable s) : PoolsSound s := by
  have hstaffed := staffed_reach s hs
  have hjoin := joinInv_reach s hs
  have hexact := fun t p => (scoped_reach s hs t).1.isWorkerThread_iff p
  have hmember : ∀ t p, (s.loc t).isWorkerThread p = true → t ∈ (s.mem.pools p).workers := by
    intro t p htrue
    obtain ⟨previous, hscope | hscope⟩ := (hexact t p).mp htrue
    · exact hstaffed.placed t p _ hscope
    · exact hstaffed.placed t p _ hscope
  refine ⟨hexact, hmember, hstaffed.nodup, hstaffed.disjoint, hstaffed.alive, ?_, hjoin.joins⟩
  intro t p todo hcall hin
  obtain ⟨_, hcalling⟩ := scoped_reach s hs t
  obtain ⟨_, hclient⟩ | ⟨q, previous, hscope⟩ := hcalling (by rw [hcall]; simp)
  · exact hclient (hstaffed.hired p t hin).1
  · -- a worker of `p` in its function has `current_pool_ = p`, and the guard has seen another value
    have hq := hstaffed.disjoint q p t (hstaffed.placed t q _ hscope) hin
    subst hq
    have htrue := (hexact t q).mpr ⟨previous, .inl hscope⟩
    rw [PoolLoc.isWorkerThread, decide_eq_true_iff] at htrue
    exact hjoin.guard t _ q hcall rfl htrue

end Invariants

/-- A client is joining a pool whose worker has tried to join it too. -/
theorem pools_sound_while_joining :
    ∃ s : Config (Fin 3) (PoolMem (Fin 3)) (PoolLoc (Fin 3)),
      (s.loc 2).call = some (.joining 0 [0, 1]) ∧ (s.loc 0).isWorkerThread 0 = true ∧
        (s.loc 0).last.isSome = true ∧ (s.loc 0).call = none ∧ PoolsSound s := by
  obtain ⟨s, hs, hp⟩ := System.exists_reach_of_run (system ({0, 1} : Finset (Fin 3)))
    (fun _ _ => True) (fun _ _ => true) rfl
    [(2, .call (.start 0 2 true)), (2, .go false none), (2, .go false (some 0)), (0, .begin),
      (0, .go false none), (0, .call (.join 0)), (2, .go false (some 1)), (0, .go false none),
      (2, .go false none), (2, .call (.join 0)), (2, .go false none), (2, .go false none)]
    (fun s => decide ((s.loc 2).call = some (.joining 0 [0, 1]) ∧
      (s.loc 0).isWorkerThread 0 = true ∧ (s.loc 0).last.isSome = true ∧ (s.loc 0).call = none))
    (fun _ _ _ _ => trivial) (by decide +kernel)
  obtain ⟨hjoining, hworker, hlast, hcall⟩ := of_decide_eq_true hp
  exact ⟨s, hjoining, hworker, hlast, hcall, pools_sound hs⟩

end WorkerPools

end EventDispatcher
