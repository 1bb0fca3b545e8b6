import EventDispatcher.Lib.Transition
import EventDispatcher.Subscription.SubscriberState

/-!
# `subscription` tokens

A token object owns at most one registration.  Tokens are taken from `subscribe`,
constructed empty, moved, assigned, reset and destroyed in any order, and the facade
of the registry may go away in between: a retirement then finds its weak reference
expired.

Token objects and subscribers are named by numbers; a subscriber's number is its
identifier.  Operations on an object that does not exist, or the construction of one
that does, are no steps.
-/

namespace EventDispatcher

namespace Tokens

open Transition

/-- What `unsubscribe` reads and writes of a `subscriber_state`. -/
structure Registration where
  active : Bool := true
  retirementStarted : Bool := false
  deriving DecidableEq

/-- `registry_core`. -/
structure Core where
  current : List ℕ := []
  nextId : ℕ := 1

/-- The token objects, each with its `control_`, the subscribers ever registered, and
the registry until its facade is destroyed. -/
structure World where
  tokens : ℕ → Option (Option ℕ)
  subs : ℕ → Option Registration
  core : Option Core

/-- The operations.  `allocates` says whether the snapshot copy of a retirement can be
allocated, `throws` that something in `subscribe` throws before the snapshot is
stored. -/
inductive TokenOp
  | subscribe (target : ℕ) (callback : Bool) (options : SubscriptionOptions) (throws : Bool)
  | construct (target : ℕ)
  | moveConstruct (target source : ℕ)
  | moveAssign (target source : ℕ) (allocates : Bool)
  | reset (target : ℕ) (allocates : Bool)
  | destroy (target : ℕ) (allocates : Bool)
  | destroyRegistry
  deriving DecidableEq

/-- `std::numeric_limits<subscriber_id>::max()`. -/
def maxId : ℕ := 2 ^ 64 - 1

namespace World

/-- `subscribed`. -/
def subscribed (w : World) (id : ℕ) : Bool := (w.subs id).any Registration.active

/-- The token `t` owns the registration of subscriber `id`. -/
def Owns (w : World) (t id : ℕ) : Prop := w.tokens t = some (some id)

/-- Writes token `t`. -/
def setToken (w : World) (t : ℕ) (control : Option (Option ℕ)) : World :=
  { w with tokens := Function.update w.tokens t control }

/-- `active_count`. -/
def activeCount (w : World) (core : Core) : ℕ := core.current.countP w.subscribed

/-- The retirement closure. -/
def retire (w : World) (id : ℕ) : World :=
  match w.core with
  | none => w
  | some core =>
      if id ∈ core.current then
        { w with
          core := some { core with
            current := core.current.filter fun i => decide (i ≠ id) && w.subscribed i } }
      else w

/-- `subscriber_state::unsubscribe`.  No callback is running. -/
def unsubscribe (w : World) (id : ℕ) (allocates : Bool) : World :=
  match w.subs id with
  | none => w
  | some sub =>
      let w := { w with
        subs := Function.update w.subs id (some { active := false, retirementStarted := true }) }
      if sub.retirementStarted = false ∧ allocates = true then w.retire id else w

/-- `subscription::reset`. -/
def reset (w : World) (t : ℕ) (allocates : Bool) : World :=
  match w.tokens t with
  | some (some id) => (w.unsubscribe id allocates).setToken t (some none)
  | _ => w

/-- `control_ = std::move(other.control_)`. -/
def transfer (w : World) (target source : ℕ) (control : Option ℕ) : World :=
  (w.setToken source (some none)).setToken target (some control)

/-- `snapshot_registry::subscribe`; the new subscriber, unless it throws. -/
def subscribe (w : World) (copyable : Bool) (core : Core) (callback : Bool)
    (options : SubscriptionOptions) (throws : Bool) : World × Option ℕ :=
  if callback = false ∨ core.nextId = maxId then (w, none)
  else
    let id := core.nextId
    let core := { core with nextId := core.nextId + 1 }
    match options.validate copyable with
    | .error _ => ({ w with core := some core }, none)
    | .ok _ =>
        if throws then ({ w with core := some core }, none)
        else
          ({ w with
              subs := Function.update w.subs id (some {})
              core := some { core with current := core.current.filter w.subscribed ++ [id] } },
            some id)

end World

/-- One operation.  `copyable` says whether the events are copy-constructible. -/
def step (copyable : Bool) (w : World) : TokenOp → Option World
  | .subscribe target callback options throws =>
      match w.core, w.tokens target with
      | some core, none =>
          match w.subscribe copyable core callback options throws with
          | (w, none) => some w
          | (w, some id) => some (w.setToken target (some (some id)))
      | _, _ => none
  | .construct target =>
      match w.tokens target with
      | none => some (w.setToken target (some none))
      | some _ => none
  | .moveConstruct target source =>
      match w.tokens target, w.tokens source with
      | none, some control => some (w.transfer target source control)
      | _, _ => none
  | .moveAssign target source allocates =>
      match w.tokens target, w.tokens source with
      | some _, some control =>
          if target = source then some w
          else some ((w.reset target allocates).transfer target source control)
      | _, _ => none
  | .reset target allocates =>
      match w.tokens target with
      | some _ => some (w.reset target allocates)
      | none => none
  | .destroy target allocates =>
      match w.tokens target with
      | some _ => some ((w.reset target allocates).setToken target none)
      | none => none
  | .destroyRegistry =>
      match w.core with
      | some _ => some { w with core := none }
      | none => none

/-- A registry and no token. -/
def tokenSystem (copyable : Bool) : System World TokenOp where
  init w := w = { tokens := fun _ => none, subs := fun _ => none, core := some {} }
  step := step copyable

/-- The operation takes the registration of `id` away from the token that owns it. -/
def Releases (w : World) (id : ℕ) : TokenOp → Prop
  | .moveAssign target source _ => target ≠ source ∧ w.Owns target id
  | .reset target _ | .destroy target _ => w.Owns target id
  | _ => False

/-- Every active subscriber has its owner, and the registry lists it. -/
structure Inv (w : World) : Prop where
  owned : ∀ t id, w.Owns t id → w.subs id = some {}
  owner : ∀ id sub, w.subs id = some sub → sub.active = true → ∃ t, w.Owns t id
  unique : ∀ t u id, w.Owns t id → w.Owns u id → t = u
  nodup : ∀ core, w.core = some core → core.current.Nodup
  listed : ∀ core, w.core = some core → ∀ id, w.subscribed id = true → id ∈ core.current
  known : ∀ core, w.core = some core → ∀ id ∈ core.current, (w.subs id).isSome
  below : ∀ core, w.core = some core → ∀ id, (w.subs id).isSome → id < core.nextId

section Effects

variable {w : World} {id t : ℕ} {allocates : Bool}

theorem subscribed_eq_true : w.subscribed id = true ↔ ∃ sub, w.subs id = some sub ∧ sub.active = true := by
  unfold World.subscribed
  rw [Option.any_eq_true]

/-- A retirement only rewrites the snapshot, and keeps the other active subscribers. -/
theorem retire_effect (w : World) (id : ℕ) :
    (w.retire id).tokens = w.tokens ∧ (w.retire id).subs = w.subs ∧
      ∀ core', (w.retire id).core = some core' → ∃ core, w.core = some core ∧
        core'.nextId = core.nextId ∧ core'.current.Sublist core.current ∧
        ∀ i ∈ core.current, i ≠ id → w.subscribed i = true → i ∈ core'.current := by
  unfold World.retire
  split
  · next hcore =>
      refine ⟨rfl, rfl, ?_⟩
      intro core' hcore'
      rw [hcore] at hcore'
      cases hcore'
  · next core hcore =>
      split
      · refine ⟨rfl, rfl, ?_⟩
        intro core' hcore'
        cases hcore'
        refine ⟨core, hcore, rfl, List.filter_sublist, ?_⟩
        intro i hi hne hactive
        apply List.mem_filter.mpr
        exact ⟨hi, by simp [hne, hactive]⟩
      · refine ⟨rfl, rfl, ?_⟩
        intro core' hcore'
        exact ⟨core', hcore', rfl, List.Sublist.refl _, fun i hi _ _ => hi⟩

/-- What `unsubscribe` does to a registered subscriber. -/
theorem unsubscribe_effect (allocates : Bool) {sub : Registration}
    (hsub : w.subs id = some sub) :
    (w.unsubscribe id allocates).tokens = w.tokens ∧
      (w.unsubscribe id allocates).subs = Function.update w.subs id
        (some { active := false, retirementStarted := true }) ∧
      ∀ core', (w.unsubscribe id allocates).core = some core' → ∃ core, w.core = some core ∧
        core'.nextId = core.nextId ∧ core'.current.Sublist core.current ∧
        ∀ i ∈ core.current, i ≠ id → w.subscribed i = true → i ∈ core'.current := by
  unfold World.unsubscribe
  rw [hsub]
  simp only
  split
  · obtain ⟨htokens, hsubs, hcore⟩ := retire_effect { w with
      subs := Function.update w.subs id (some { active := false, retirementStarted := true }) } id
    refine ⟨htokens, hsubs, ?_⟩
    intro core' hcore'
    obtain ⟨core, hold, hnext, hsublist, hkeeps⟩ := hcore core' hcore'
    refine ⟨core, hold, hnext, hsublist, ?_⟩
    intro i hi hne hactive
    apply hkeeps i hi hne
    simpa [World.subscribed, Function.update_of_ne hne] using hactive
  · refine ⟨rfl, rfl, ?_⟩
    intro core' hcore'
    exact ⟨core', hcore', rfl, List.Sublist.refl _, fun i hi _ _ => hi⟩

/-- What `reset` does to a token that owns a registration. -/
theorem reset_effect (allocates : Bool) {sub : Registration} (hown : w.Owns t id)
    (hsub : w.subs id = some sub) :
    (w.reset t allocates).tokens = Function.update w.tokens t (some none) ∧
      (w.reset t allocates).subs = Function.update w.subs id
        (some { active := false, retirementStarted := true }) ∧
      ∀ core', (w.reset t allocates).core = some core' → ∃ core, w.core = some core ∧
        core'.nextId = core.nextId ∧ core'.current.Sublist core.current ∧
        ∀ i ∈ core.current, i ≠ id → w.subscribed i = true → i ∈ core'.current := by
  have hreset : w.reset t allocates = (w.unsubscribe id allocates).setToken t (some none) := by
    unfold World.reset
    rw [show w.tokens t = some (some id) from hown]
  obtain ⟨htokens, hsubs, hcore⟩ := unsubscribe_effect allocates hsub
  rw [hreset]
  refine ⟨?_, hsubs, hcore⟩
  rw [World.setToken, htokens]

/-- An empty token is reset without any effect. -/
theorem reset_of_empty (h : w.tokens t = some none) : w.reset t allocates = w := by
  unfold World.reset
  rw [h]

/-- A reset token is empty. -/
theorem tokens_reset (allocates : Bool) {control : Option ℕ} (h : w.tokens t = some control) :
    (w.reset t allocates).tokens t = some none := by
  unfold World.reset
  cases control with
  | none =>
      rw [h]
      exact h
  | some id =>
      rw [h]
      exact Function.update_self _ _ _

theorem unsubscribe_tokens : (w.unsubscribe id allocates).tokens = w.tokens := by
  cases hsub : w.subs id with
  | none =>
      unfold World.unsubscribe
      rw [hsub]
  | some sub => exact (unsubscribe_effect _ hsub).1

/-- The other tokens are left alone. -/
theorem reset_tokens_of_ne {u : ℕ} (hu : u ≠ t) :
    (w.reset t allocates).tokens u = w.tokens u := by
  unfold World.reset
  split
  · next id _ =>
      rw [World.setToken]
      simp only [Function.update_of_ne hu, unsubscribe_tokens]
  · rfl

end Effects

namespace Inv

variable {w : World} {id t : ℕ} {allocates : Bool}

/-- Tokens that come and go empty change nothing. -/
theorem setToken (h : Inv w) (hempty : ∀ id, ¬ w.Owns t id) {control : Option (Option ℕ)}
    (hcontrol : control = none ∨ control = some none) : Inv (w.setToken t control) := by
  have howns : ∀ u id, (w.setToken t control).Owns u id ↔ w.Owns u id := by
    intro u id
    simp only [World.Owns, World.setToken]
    by_cases hu : u = t
    · subst hu
      rw [Function.update_self]
      have hno := hempty id
      unfold World.Owns at hno
      obtain rfl | rfl := hcontrol <;> simp [hno]
    · rw [Function.update_of_ne hu]
  refine ⟨?_, ?_, ?_, h.nodup, h.listed, h.known, h.below⟩
  · intro u id hown
    exact h.owned u id ((howns u id).mp hown)
  · intro id sub hsub hactive
    obtain ⟨u, hown⟩ := h.owner id sub hsub hactive
    exact ⟨u, (howns u id).mpr hown⟩
  · intro u v id hu hv
    exact h.unique u v id ((howns u id).mp hu) ((howns v id).mp hv)

/-- **`reset` retires the registration that the token owns, and no other.** -/
theorem reset (h : Inv w) : Inv (w.reset t allocates) := by
  cases hcontrol : w.tokens t with
  | none =>
      have hreset : w.reset t allocates = w := by
        unfold World.reset
        rw [hcontrol]
      rw [hreset]
      exact h
  | some control =>
      cases control with
      | none =>
          rw [reset_of_empty hcontrol]
          exact h
      | some id =>
          have hsub := h.owned t id hcontrol
          obtain ⟨htokens, hsubs, hcore⟩ := reset_effect allocates hcontrol hsub
          have howns : ∀ u i, (w.reset t allocates).Owns u i ↔ u ≠ t ∧ w.Owns u i := by
            intro u i
            unfold World.Owns
            rw [htokens]
            by_cases hu : u = t
            · subst hu
              simp
            · rw [Function.update_of_ne hu]
              simp [hu]
          have hother : ∀ i, i ≠ id → (w.reset t allocates).subs i = w.subs i := by
            intro i hi
            rw [hsubs, Function.update_of_ne hi]
          have hself : (w.reset t allocates).subs id =
              some { active := false, retirementStarted := true } := by
            rw [hsubs, Function.update_self]
          have hsome : ∀ i, ((w.reset t allocates).subs i).isSome → (w.subs i).isSome := by
            intro i hi
            by_cases heq : i = id
            · rw [heq, hsub]
              rfl
            · rwa [hother i heq] at hi
          refine ⟨?_, ?_, ?_, ?_, ?_, ?_, ?_⟩
          · intro u i hown
            obtain ⟨hu, hown⟩ := (howns u i).mp hown
            have hi : i ≠ id := by
              intro heq
              rw [heq] at hown
              exact hu (h.unique u t id hown hcontrol)
            rw [hother i hi]
            exact h.owned u i hown
          · intro i sub hi hactive
            have hne : i ≠ id := by
              intro heq
              rw [heq, hself] at hi
              cases hi
              cases hactive
            rw [hother i hne] at hi
            obtain ⟨u, hown⟩ := h.owner i sub hi hactive
            refine ⟨u, (howns u i).mpr ⟨?_, hown⟩⟩
            intro hu
            rw [hu] at hown
            have heq : some (some i) = some (some id) := hown.symm.trans hcontrol
            exact hne (Option.some.inj (Option.some.inj heq))
          · intro u v i hu hv
            exact h.unique u v i ((howns u i).mp hu).2 ((howns v i).mp hv).2
          · intro core' hcore'
            obtain ⟨core, hold, -, hsublist, -⟩ := hcore core' hcore'
            exact (h.nodup core hold).sublist hsublist
          · intro core' hcore' i hactive
            obtain ⟨core, hold, -, -, hkeeps⟩ := hcore core' hcore'
            obtain ⟨sub, hi, hsubActive⟩ := subscribed_eq_true.mp hactive
            have hne : i ≠ id := by
              intro heq
              rw [heq, hself] at hi
              cases hi
              cases hsubActive
            rw [hother i hne] at hi
            have hbefore := subscribed_eq_true.mpr ⟨sub, hi, hsubActive⟩
            exact hkeeps i (h.listed core hold i hbefore) hne hbefore
          · intro core' hcore' i hi
            obtain ⟨core, hold, -, hsublist, -⟩ := hcore core' hcore'
            have hknown := h.known core hold i (hsublist.subset hi)
            by_cases heq : i = id
            · rw [heq, hself]
              rfl
            · rwa [hother i heq]
          · intro core' hcore' i hi
            obtain ⟨core, hold, hnext, -, -⟩ := hcore core' hcore'
            rw [hnext]
            exact h.below core hold i (hsome i hi)

/-- **A move hands the registration over** to a token that owns none. -/
theorem transfer (h : Inv w) {target source : ℕ} {control : Option ℕ} (hne : target ≠ source)
    (htarget : ∀ id, ¬ w.Owns target id) (hsource : w.tokens source = some control) :
    Inv (w.transfer target source control) := by
  -- the new owner of what the source owned is the target
  have howns : ∀ u id, (w.transfer target source control).Owns u id ↔
      (u = target ∧ w.Owns source id) ∨ (u ≠ target ∧ u ≠ source ∧ w.Owns u id) := by
    intro u id
    simp only [World.Owns, World.transfer, World.setToken]
    by_cases hu : u = target
    · subst hu
      simp [hsource]
    · rw [Function.update_of_ne hu]
      by_cases hu' : u = source
      · subst hu'
        simp [hu]
      · rw [Function.update_of_ne hu']
        simp [hu, hu']
  refine ⟨?_, ?_, ?_, h.nodup, h.listed, h.known, h.below⟩
  · intro u id hown
    obtain ⟨-, hown⟩ | ⟨-, -, hown⟩ := (howns u id).mp hown
    · exact h.owned source id hown
    · exact h.owned u id hown
  · intro id sub hsub hactive
    obtain ⟨u, hown⟩ := h.owner id sub hsub hactive
    by_cases hu : u = source
    · rw [hu] at hown
      exact ⟨target, (howns target id).mpr (.inl ⟨rfl, hown⟩)⟩
    · have hu' : u ≠ target := by
        intro heq
        rw [heq] at hown
        exact htarget id hown
      exact ⟨u, (howns u id).mpr (.inr ⟨hu', hu, hown⟩)⟩
  · intro u v id hu hv
    obtain ⟨hut, hold⟩ | ⟨-, hus, hold⟩ := (howns u id).mp hu
    · obtain ⟨hvt, -⟩ | ⟨-, hvs, hold'⟩ := (howns v id).mp hv
      · rw [hut, hvt]
      · exact absurd (h.unique v source id hold' hold) hvs
    · obtain ⟨-, hold'⟩ | ⟨-, -, hold'⟩ := (howns v id).mp hv
      · exact absurd (h.unique u source id hold hold') hus
      · exact h.unique u v id hold hold'

/-- A failed `subscribe` at most uses up an identifier. -/
theorem skipId (h : Inv w) {core : Core} (hcore : w.core = some core) :
    Inv { w with core := some { core with nextId := core.nextId + 1 } } := by
  refine ⟨h.owned, h.owner, h.unique, ?_, ?_, ?_, ?_⟩
  · intro core' hcore'
    cases hcore'
    exact h.nodup core hcore
  · intro core' hcore'
    cases hcore'
    exact h.listed core hcore
  · intro core' hcore'
    cases hcore'
    exact h.known core hcore
  · intro core' hcore' id hid
    cases hcore'
    exact (h.below core hcore id hid).trans (Nat.lt_succ_self _)

/-- **A new registration belongs to the token made from it.** -/
theorem register (h : Inv w) {core : Core} (hcore : w.core = some core)
    (htarget : w.tokens t = none) :
    Inv (World.setToken { w with
      subs := Function.update w.subs core.nextId (some {})
      core := some {
        nextId := core.nextId + 1
        current := core.current.filter w.subscribed ++ [core.nextId] } }
      t (some (some core.nextId))) := by
  have hfresh : w.subs core.nextId = none := by
    by_contra hsome
    have hlt := h.below core hcore core.nextId (Option.isSome_iff_ne_none.mpr hsome)
    omega
  have hnot : ∀ u id, w.Owns u id → u ≠ t ∧ id ≠ core.nextId := by
    intro u id hown
    constructor
    · intro hu
      have hnone : w.tokens u = none := hu ▸ htarget
      rw [show w.tokens u = some (some id) from hown] at hnone
      cases hnone
    · intro hid
      have hsub := h.owned u id hown
      rw [hid, hfresh] at hsub
      cases hsub
  have howns : ∀ u id, Function.update w.tokens t (some (some core.nextId)) u = some (some id) ↔
      (u = t ∧ id = core.nextId) ∨ w.Owns u id := by
    intro u id
    by_cases hu : u = t
    · subst hu
      have hno : ¬ w.Owns u id := fun hown => (hnot u id hown).1 rfl
      simp [hno, eq_comm]
    · rw [Function.update_of_ne hu]
      simp [hu, World.Owns]
  refine ⟨?_, ?_, ?_, ?_, ?_, ?_, ?_⟩
  · intro u id hown
    obtain ⟨-, rfl⟩ | hown := (howns u id).mp hown
    · exact Function.update_self _ _ _
    · exact (Function.update_of_ne (hnot u id hown).2 _ _).trans (h.owned u id hown)
  · intro id sub hsub hactive
    by_cases hid : id = core.nextId
    · exact ⟨t, (howns t id).mpr (.inl ⟨rfl, hid⟩)⟩
    · have hold : w.subs id = some sub := (Function.update_of_ne hid _ _).symm.trans hsub
      obtain ⟨u, hown⟩ := h.owner id sub hold hactive
      exact ⟨u, (howns u id).mpr (.inr hown)⟩
  · intro u v id hu hv
    obtain ⟨hut, hid⟩ | hold := (howns u id).mp hu
    · obtain ⟨hvt, -⟩ | hold' := (howns v id).mp hv
      · rw [hut, hvt]
      · exact absurd hid (hnot v id hold').2
    · obtain ⟨-, hid⟩ | hold' := (howns v id).mp hv
      · exact absurd hid (hnot u id hold).2
      · exact h.unique u v id hold hold'
  · intro core' hcore'
    cases hcore'
    apply List.nodup_append.mpr
    refine ⟨(h.nodup core hcore).filter _, List.nodup_singleton _, ?_⟩
    intro a ha b hb heq
    have hknown := h.known core hcore a (List.mem_of_mem_filter ha)
    rw [heq, List.mem_singleton.mp hb, hfresh] at hknown
    cases hknown
  · intro core' hcore' id hactive
    cases hcore'
    by_cases hid : id = core.nextId
    · exact List.mem_append_right _ (List.mem_singleton.mpr hid)
    · have hold : w.subscribed id = true := by
        simpa [World.subscribed, World.setToken, Function.update_of_ne hid] using hactive
      apply List.mem_append_left
      exact List.mem_filter.mpr ⟨h.listed core hcore id hold, hold⟩
  · intro core' hcore' id hmem
    cases hcore'
    by_cases hid : id = core.nextId
    · rw [hid]
      simp [World.setToken]
    · have hmem' := (List.mem_append.mp hmem).resolve_right fun hlast =>
        hid (List.mem_singleton.mp hlast)
      have hknown := h.known core hcore id (List.mem_of_mem_filter hmem')
      simpa [World.setToken, Function.update_of_ne hid] using hknown
  · intro core' hcore' id hsome
    cases hcore'
    show id < core.nextId + 1
    by_cases hid : id = core.nextId
    · omega
    · have hold : (w.subs id).isSome := by
        simpa [World.setToken, Function.update_of_ne hid] using hsome
      have hlt := h.below core hcore id hold
      omega

theorem destroyRegistry (h : Inv w) : Inv { w with core := none } := by
  refine ⟨h.owned, h.owner, h.unique, ?_, ?_, ?_, ?_⟩ <;> intro core hcore <;> cases hcore

end Inv

/-- What `subscribe` does, with the token made from its result. -/
inductive Subscribes (w : World) (core : Core) : World × Option ℕ → Prop
  | refused : Subscribes w core (w, none)
  | threw : Subscribes w core ({ w with core := some { core with nextId := core.nextId + 1 } }, none)
  | registered : Subscribes w core
      ({ w with
          subs := Function.update w.subs core.nextId (some {})
          core := some {
            nextId := core.nextId + 1
            current := core.current.filter w.subscribed ++ [core.nextId] } }, some core.nextId)

theorem subscribe_cases (w : World) (copyable : Bool) (core : Core) (callback : Bool)
    (options : SubscriptionOptions) (throws : Bool) :
    Subscribes w core (w.subscribe copyable core callback options throws) := by
  unfold World.subscribe
  split
  · exact .refused
  · simp only
    split
    · exact .threw
    · split
      · exact .threw
      · exact .registered

/-- **One operation keeps the ownership.** -/
theorem inv_step {copyable : Bool} {w w' : World} {op : TokenOp} (h : Inv w)
    (hstep : step copyable w op = some w') : Inv w' := by
  cases op with
  | subscribe target callback options throws =>
      simp only [step] at hstep
      split at hstep
      · next core hcore htarget =>
          have hcases := subscribe_cases w copyable core callback options throws
          generalize w.subscribe copyable core callback options throws = r at hcases hstep
          cases hcases with
          | refused =>
              cases hstep
              exact h
          | threw =>
              cases hstep
              exact h.skipId hcore
          | registered =>
              cases hstep
              exact h.register hcore htarget
      · cases hstep
  | construct target =>
      simp only [step] at hstep
      split at hstep
      · next htarget =>
          cases hstep
          refine h.setToken ?_ (.inr rfl)
          intro id hown
          rw [show w.tokens target = some (some id) from hown] at htarget
          cases htarget
      · cases hstep
  | moveConstruct target source =>
      simp only [step] at hstep
      split at hstep
      · next control htarget hsource =>
          cases hstep
          refine h.transfer ?_ ?_ hsource
          · intro heq
            rw [heq, hsource] at htarget
            cases htarget
          · intro id hown
            rw [show w.tokens target = some (some id) from hown] at htarget
            cases htarget
      · cases hstep
  | moveAssign target source allocates =>
      simp only [step] at hstep
      split at hstep
      · next _ control htarget hsource =>
          split at hstep
          · cases hstep
            exact h
          · next hne =>
              cases hstep
              refine h.reset.transfer hne ?_ ?_
              · intro id hown
                have hempty := tokens_reset allocates htarget
                rw [show (w.reset target allocates).tokens target = some (some id) from hown] at hempty
                cases hempty
              · rw [reset_tokens_of_ne (Ne.symm hne)]
                exact hsource
      · cases hstep
  | reset target allocates =>
      simp only [step] at hstep
      split at hstep
      · cases hstep
        exact h.reset
      · cases hstep
  | destroy target allocates =>
      simp only [step] at hstep
      split at hstep
      · next htarget =>
          cases hstep
          refine h.reset.setToken ?_ (.inl rfl)
          intro id hown
          have hempty := tokens_reset allocates htarget
          rw [show (w.reset target allocates).tokens target = some (some id) from hown] at hempty
          cases hempty
      · cases hstep
  | destroyRegistry =>
      simp only [step] at hstep
      split at hstep
      · cases hstep
        exact h.destroyRegistry
      · cases hstep

theorem inv_init : Inv { tokens := fun _ => none, subs := fun _ => none, core := some {} } := by
  refine ⟨?_, ?_, ?_, ?_, ?_, ?_, ?_⟩
  · intro t id hown
    cases hown
  · intro id sub hsub
    cases hsub
  · intro t u id hown
    cases hown
  · intro core hcore
    cases hcore
    exact List.nodup_nil
  · intro core _ id hactive
    cases hactive
  · intro core hcore id hmem
    cases hcore
    cases hmem
  · intro core _ id hsome
    cases hsome

/-- **Any sequence of operations keeps the ownership.** -/
theorem inv_reach {copyable : Bool} {w : World} (hreach : (tokenSystem copyable).Reachable w) :
    Inv w := by
  refine System.Reach.invariant (I := Inv) ?_ ?_ w hreach
  · intro w hinit
    rw [show w = _ from hinit]
    exact inv_init
  · intro w op w' _ hinv _ hstep
    exact inv_step hinv hstep

/-- The subscriber was registered and is not active any more. -/
def Retired (w : World) (id : ℕ) : Prop := ∃ sub, w.subs id = some sub ∧ sub.active = false

theorem Retired.unsubscribe {w : World} {id : ℕ} (h : Retired w id) (i : ℕ) (allocates : Bool) :
    Retired (w.unsubscribe i allocates) id := by
  cases hsub : w.subs i with
  | none =>
      unfold World.unsubscribe
      rw [hsub]
      exact h
  | some sub =>
      obtain ⟨old, hold, hinactive⟩ := h
      unfold Retired
      rw [(unsubscribe_effect _ hsub).2.1]
      by_cases hid : id = i
      · exact ⟨_, by rw [hid, Function.update_self], rfl⟩
      · exact ⟨old, by rw [Function.update_of_ne hid, hold], hinactive⟩

theorem Retired.reset {w : World} {id : ℕ} (h : Retired w id) (t : ℕ) (allocates : Bool) :
    Retired (w.reset t allocates) id := by
  unfold World.reset
  split
  · next i _ => exact h.unsubscribe i allocates
  · exact h

/-- No operation makes a retired subscriber active again. -/
theorem retired_step {copyable : Bool} {w w' : World} {op : TokenOp} {id : ℕ} (hinv : Inv w)
    (h : Retired w id) (hstep : step copyable w op = some w') : Retired w' id := by
  cases op with
  | subscribe target callback options throws =>
      simp only [step] at hstep
      split at hstep
      · next core hcore htarget =>
          have hcases := subscribe_cases w copyable core callback options throws
          generalize w.subscribe copyable core callback options throws = r at hcases hstep
          cases hcases with
          | refused =>
              cases hstep
              exact h
          | threw =>
              cases hstep
              exact h
          | registered =>
              cases hstep
              obtain ⟨sub, hsub, hinactive⟩ := h
              -- identifiers are not used twice
              have hne : id ≠ core.nextId := by
                have hlt := hinv.below core hcore id (by rw [hsub]; rfl)
                omega
              exact ⟨sub, (Function.update_of_ne hne _ _).trans hsub, hinactive⟩
      · cases hstep
  | construct target =>
      simp only [step] at hstep
      split at hstep
      · cases hstep
        exact h
      · cases hstep
  | moveConstruct target source =>
      simp only [step] at hstep
      split at hstep
      · cases hstep
        exact h
      · cases hstep
  | moveAssign target source allocates =>
      simp only [step] at hstep
      split at hstep
      · split at hstep
        · cases hstep
          exact h
        · cases hstep
          exact h.reset target allocates
      · cases hstep
  | reset target allocates =>
      simp only [step] at hstep
      split at hstep
      · cases hstep
        exact h.reset target allocates
      · cases hstep
  | destroy target allocates =>
      simp only [step] at hstep
      split at hstep
      · cases hstep
        exact h.reset target allocates
      · cases hstep
  | destroyRegistry =>
      simp only [step] at hstep
      split at hstep
      · cases hstep
        exact h
      · cases hstep

/-- A retired id stays retired. -/
theorem retired_steps {copyable : Bool} {w w' : World} {id : ℕ}
    (hreach : (tokenSystem copyable).Reachable w)
    (hsteps : (tokenSystem copyable).Steps (fun _ _ => True) w w') (h : Retired w id) :
    Retired w' id := by
  refine System.Steps.stable (I := fun w => Retired w id) ?_ hreach hsteps h
  intro m op m' hm hretired _ hstep
  exact retired_step (inv_reach hm) hretired hstep

/-- A token that owned a registration has retired it. -/
theorem reset_retired {w : World} {t id : ℕ} {allocates : Bool} (hinv : Inv w)
    (hown : w.Owns t id) : Retired (w.reset t allocates) id := by
  have hsub := hinv.owned t id hown
  unfold Retired
  rw [(reset_effect allocates hown hsub).2.1]
  exact ⟨_, Function.update_self _ _ _, rfl⟩

/-- **Overwriting, resetting or destroying its token retires a subscriber.** -/
theorem releases_retired {copyable : Bool} {w w' : World} {op : TokenOp} {id : ℕ} (hinv : Inv w)
    (hrel : Releases w id op) (hstep : step copyable w op = some w') : Retired w' id := by
  cases op with
  | moveAssign target source allocates =>
      obtain ⟨hne, hown⟩ := hrel
      simp only [step] at hstep
      split at hstep
      · rw [if_neg hne] at hstep
        cases hstep
        exact reset_retired hinv hown
      · cases hstep
  | reset target allocates =>
      simp only [step] at hstep
      split at hstep
      · cases hstep
        exact reset_retired hinv hrel
      · cases hstep
  | destroy target allocates =>
      simp only [step] at hstep
      split at hstep
      · cases hstep
        exact reset_retired hinv hrel
      · cases hstep
  | subscribe | construct | moveConstruct | destroyRegistry => exact hrel.elim

/-- The registry counts one active subscriber for each token that owns one. -/
theorem activeCount_eq {w : World} (hinv : Inv w) {core : Core} (hcore : w.core = some core) :
    w.activeCount core = {t | ∃ id, w.Owns t id}.ncard := by
  have hset : {t | ∃ id, w.Owns t id}.ncard =
      ((core.current.filter w.subscribed).toFinset : Set ℕ).ncard := by
    refine Set.ncard_congr (fun t _ => (w.tokens t).join.getD 0) ?_ ?_ ?_
    · intro t ht
      obtain ⟨id, hown⟩ := ht
      have hactive : w.subscribed id = true :=
        subscribed_eq_true.mpr ⟨_, hinv.owned t id hown, rfl⟩
      rw [show w.tokens t = some (some id) from hown]
      simpa using ⟨hinv.listed core hcore id hactive, hactive⟩
    · intro t u ht hu heq
      obtain ⟨id, hown⟩ := ht
      obtain ⟨id', hown'⟩ := hu
      rw [show w.tokens t = some (some id) from hown,
        show w.tokens u = some (some id') from hown'] at heq
      obtain rfl : id = id' := heq
      exact hinv.unique t u id hown hown'
    · intro id hid
      have hactive : w.subscribed id = true := by
        simpa using (List.mem_filter.mp (List.mem_toFinset.mp (Finset.mem_coe.mp hid))).2
      obtain ⟨sub, hsub, hactive⟩ := subscribed_eq_true.mp hactive
      obtain ⟨t, hown⟩ := hinv.owner id sub hsub hactive
      refine ⟨t, ⟨id, hown⟩, ?_⟩
      rw [show w.tokens t = some (some id) from hown]
      rfl
  rw [hset, Set.ncard_coe_finset, List.toFinset_card_of_nodup ((hinv.nodup core hcore).filter _),
    World.activeCount, List.countP_eq_length_filter]

/-- **Token ownership**, after any sequence of token operations: a registered subscriber
is active just when exactly one token owns it, no two tokens own one subscriber, a
released one stays inactive, and the registry counts the tokens that are not empty. -/
theorem token_ownership {copyable : Bool} {w : World}
    (hreach : (tokenSystem copyable).Reachable w) :
    (∀ id sub, w.subs id = some sub → (sub.active = true ↔ ∃! t, w.Owns t id)) ∧
    (∀ t u id, w.Owns t id → w.Owns u id → t = u) ∧
    (∀ op w' id, (tokenSystem copyable).step w op = some w' → Releases w id op →
      ∀ w'', (tokenSystem copyable).Steps (fun _ _ => True) w' w'' →
        ∃ sub, w''.subs id = some sub ∧ sub.active = false) ∧
    (∀ core, w.core = some core → w.activeCount core = {t | ∃ id, w.Owns t id}.ncard) := by
  have hinv := inv_reach hreach
  refine ⟨?_, hinv.unique, ?_, ?_⟩
  · intro id sub hsub
    constructor
    · intro hactive
      obtain ⟨t, hown⟩ := hinv.owner id sub hsub hactive
      exact ⟨t, hown, fun u hu => hinv.unique u t id hu hown⟩
    · intro ⟨t, hown, _⟩
      have heq := hinv.owned t id hown
      rw [hsub] at heq
      rw [Option.some.inj heq]
  · intro op w' id hstep hrel w'' hsteps
    have hretired := releases_retired hinv hrel hstep
    exact retired_steps (.step hreach trivial hstep) hsteps hretired
  · intro core hcore
    exact activeCount_eq hinv hcore

/-- Assignment onto a token that owns a registration, after the facade is gone. -/
theorem token_ownership_assigned :
    ∃ w, (tokenSystem true).Reachable w ∧ w.core = none ∧ ∃! t, w.Owns t 2 := by
  obtain ⟨w, hreach, hw⟩ := (tokenSystem true).exists_reach_of_run (fun _ _ => True)
    (fun _ _ => true) rfl
    [.subscribe 0 true {} false, .subscribe 1 true {} false, .destroyRegistry, .moveAssign 0 1 true]
    (fun w => decide (w.core = none ∧ w.subs 2 = some {})) (fun _ _ _ _ => trivial)
    (by decide +kernel)
  rw [decide_eq_true_eq] at hw
  exact ⟨w, hreach, hw.1, ((token_ownership hreach).1 2 {} hw.2).mp rfl⟩

end Tokens

end EventDispatcher
