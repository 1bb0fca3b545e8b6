import EventDispatcher.Queue.Status

/-!
# The deadline of `publish_for` and the loops that wait for it

`publish_for` turns its timeout into a time point of the steady clock, whose
duration counts nanoseconds in a 64-bit signed integer: a `duration_cast`, then an
addition.  Neither is checked, so both wrap.  The two queue policies then wait in
loops of their own, and each of them compares its clock readings with that time
point.

A wrapped value is never larger than the exact one.  So the deadline is at most the
exact one, and a timeout is honoured exactly when nothing wraps.
-/

namespace EventDispatcher

namespace PublishFor

/-- The value of a 64-bit signed computation. -/
def toInt64 (x : ℤ) : ℤ := x.bmod (2 ^ 64)

/-- `std::numeric_limits<std::int64_t>::max()`. -/
def int64Max : ℤ := 2 ^ 63 - 1

/-- An integral `Rep` of at most 64 bits. -/
structure IntegralRep where
  signed : Bool
  bits : ℕ
  bits_pos : 0 < bits
  bits_le : bits ≤ 64

namespace IntegralRep

/-- `std::numeric_limits<Rep>::max()`. -/
def max (rep : IntegralRep) : ℕ := if rep.signed then 2 ^ (rep.bits - 1) - 1 else 2 ^ rep.bits - 1

/-- Whether the common type of `Rep`, the clock's `rep` and `std::intmax_t` is
unsigned. -/
def commonUnsigned (rep : IntegralRep) : Bool := !rep.signed && rep.bits == 64

/-- The largest value of the common type. -/
def commonMax (rep : IntegralRep) : ℤ := if rep.commonUnsigned then 2 ^ 64 - 1 else 2 ^ 63 - 1

/-- The value of a computation in the common type. -/
def common (rep : IntegralRep) (x : ℤ) : ℤ :=
  if rep.commonUnsigned then x % 2 ^ 64 else toInt64 x

end IntegralRep

/-- Numerator of `std::ratio_divide<Period, std::nano>`. -/
def factorNum (num den : ℕ) : ℕ := num * 10 ^ 9 / (num * 10 ^ 9).gcd den

/-- Denominator of `std::ratio_divide<Period, std::nano>`. -/
def factorDen (num den : ℕ) : ℕ := den / (num * 10 ^ 9).gcd den

/-- A `std::ratio` of seconds, in lowest terms.  A period whose conversion factor does
not fit `std::intmax_t` does not compile. -/
structure Period where
  num : ℕ
  den : ℕ
  num_pos : 0 < num
  den_pos : 0 < den
  coprime : num.Coprime den
  num_fits : factorNum num den ≤ 2 ^ 63 - 1
  den_fits : factorDen num den ≤ 2 ^ 63 - 1

/-- A non-negative `std::chrono::duration<Rep, Period>`. -/
structure Timeout where
  rep : IntegralRep
  period : Period
  count : ℕ
  count_le : count ≤ rep.max

namespace Timeout

/-- The timeout rounded toward zero to nanoseconds. -/
def nanos (timeout : Timeout) : ℕ := timeout.count * (timeout.period.num * 10 ^ 9) / timeout.period.den

/-- One timeout is at most as long as another, whatever their types. -/
def NoLonger (shorter longer : Timeout) : Prop :=
  shorter.count * shorter.period.num * longer.period.den ≤
    longer.count * longer.period.num * shorter.period.den

end Timeout

/-- `std::chrono::duration_cast<std::chrono::steady_clock::duration>(timeout)`. -/
def durationCast (timeout : Timeout) : ℤ :=
  let rep := timeout.rep
  let num := factorNum timeout.period.num timeout.period.den
  let den := factorDen timeout.period.num timeout.period.den
  let count := rep.common timeout.count
  if num = 1 ∧ den = 1 then toInt64 timeout.count
  else if den = 1 then toInt64 (rep.common (count * num))
  else if num = 1 then toInt64 (count.tdiv den)
  else toInt64 ((rep.common (count * num)).tdiv den)

/-- `steady_clock::now() + bounded_timeout`. -/
def deadline (now : ℤ) (timeout : Timeout) : ℤ := toInt64 (now + durationCast timeout)

/-- What a look at the queue finds. -/
inductive View
  | room
  | full
  | closed
  deriving DecidableEq

/-- What an attempt to push then returns. -/
def View.push : View → QueueStatus
  | .room => .success
  | .full => .full
  | .closed => .closed

/-- What one round of a waiting loop meets. -/
structure Round where
  stopRequested : Bool
  before : View
  clock : ℤ
  /-- the queue once the deadline has passed -/
  after : View
  /-- the token, asked again by the mutex queue before it returns -/
  stopAfter : Bool

/-- `bounded_lock_free_queue::wait_push_until_impl`: the status it returns and the last
clock reading.  Between rounds it sleeps for at most a millisecond. -/
def lockFreeWait (deadline : ℤ) : List Round → Option (QueueStatus × Option ℤ)
  | [] => none
  | round :: rest =>
      if round.before.push ≠ .full then some (round.before.push, none)
      else if round.stopRequested then some (.stopped, none)
      else if deadline ≤ round.clock then
        some (if round.after.push = .full then .timeout else round.after.push, some round.clock)
      else lockFreeWait deadline rest

/-- `bounded_mutex_queue::wait_push_until_impl`.  The loop is the one of
`condition_variable_any::wait_until` with a stop token and a predicate; a wait on the
variable ends with `cv_status::timeout` when the clock has reached the deadline. -/
def mutexWait (deadline : ℤ) : List Round → Option (QueueStatus × Option ℤ)
  | [] => none
  | round :: rest =>
      if round.before ≠ .full then some (round.before.push, none)
      else if round.stopRequested then some (.stopped, none)
      else if deadline ≤ round.clock then
        if round.after ≠ .full then some (round.after.push, some round.clock)
        else some (if round.stopAfter then .stopped else .timeout, some round.clock)
      else mutexWait deadline rest

/-- The queue policies. -/
inductive Policy
  | mutex
  | lockFree
  deriving DecidableEq

/-- `wait_push_until` of either policy. -/
def waitPushUntil : Policy → ℤ → List Round → Option (QueueStatus × Option ℤ)
  | .mutex => mutexWait
  | .lockFree => lockFreeWait

/-- `publish_for`, called at clock reading `now`. -/
def publishFor (policy : Policy) (now : ℤ) (timeout : Timeout) (rounds : List Round) :
    Option (QueueStatus × Option ℤ) :=
  waitPushUntil policy (deadline now timeout) rounds

/-- The queue stays full and open, and nobody asks to stop. -/
def Round.Stuck (round : Round) : Prop :=
  round.before = .full ∧ round.after = .full ∧ round.stopRequested = false ∧ round.stopAfter = false

/-- The readings of a steady clock, from `now` on. -/
def Steady (now : ℤ) (rounds : List Round) : Prop :=
  (now :: rounds.map Round.clock).IsChain (· ≤ ·) ∧ ∀ round ∈ rounds, round.clock ≤ int64Max

/-- The deadline does not lie in the past, `timeout` is returned no earlier than the
timeout asks for, and a shorter timeout ends no later. -/
structure Honours (now : ℤ) (timeout : Timeout) : Prop where
  now_le : now ≤ deadline now timeout
  waits : ∀ policy rounds, (∀ round ∈ rounds, round.Stuck) → Steady now rounds →
    ∀ t, publishFor policy now timeout rounds = some (.timeout, t) →
      ∃ reading, t = some reading ∧ (timeout.nanos : ℤ) ≤ reading - now
  monotone : ∀ shorter : Timeout, shorter.NoLonger timeout →
    deadline now shorter ≤ deadline now timeout

/-- Neither the multiplication of `duration_cast` nor the addition overflows. -/
def Fits (now : ℤ) (timeout : Timeout) : Prop :=
  (timeout.count * factorNum timeout.period.num timeout.period.den : ℤ) ≤ timeout.rep.commonMax ∧
    now + timeout.nanos ≤ int64Max

section Wrapping

/-- A wrapped value of the upper range is a full turn or more too small. -/
theorem toInt64_of_gt {x : ℤ} (h : int64Max < x) : toInt64 x ≤ x - 2 ^ 64 := by
  unfold int64Max at h
  unfold toInt64
  rw [Int.bmod_def]
  split <;> omega

/-- In range the conversion changes nothing. -/
theorem toInt64_of_le {x : ℤ} (hlow : -2 ^ 63 ≤ x) (hhigh : x ≤ int64Max) : toInt64 x = x := by
  unfold int64Max at hhigh
  apply Int.bmod_eq_of_le_mul_two
  · push_cast
    omega
  · push_cast
    omega

/-- The conversion stays in range from below. -/
theorem toInt64_ge (x : ℤ) : -2 ^ 63 ≤ toInt64 x := by
  unfold toInt64
  rw [Int.bmod_def]
  split <;> omega

/-- The conversion stays in range from above. -/
theorem toInt64_le_max (x : ℤ) : toInt64 x ≤ int64Max := by
  unfold toInt64 int64Max
  rw [Int.bmod_def]
  split <;> omega

/-- The conversion never enlarges a value that is not too small. -/
theorem toInt64_le {x : ℤ} (hlow : -2 ^ 63 ≤ x) : toInt64 x ≤ x := by
  rcases le_or_gt x int64Max with hhigh | hhigh
  · exact (toInt64_of_le hlow hhigh).le
  · have hle := toInt64_of_gt hhigh
    omega

/-- The conversion is exact up to the largest value. -/
theorem toInt64_eq_iff {x : ℤ} (hlow : -2 ^ 63 ≤ x) : toInt64 x = x ↔ x ≤ int64Max := by
  constructor
  · intro heq
    by_contra hhigh
    have hle := toInt64_of_gt (not_le.mp hhigh)
    omega
  · exact toInt64_of_le hlow

variable (rep : IntegralRep) {x : ℤ}

/-- The common representation holds its own values exactly. -/
theorem common_of_le (hx : 0 ≤ x) (hle : x ≤ rep.commonMax) : rep.common x = x := by
  unfold IntegralRep.common
  unfold IntegralRep.commonMax at hle
  split at hle
  · next h =>
      rw [if_pos h]
      omega
  · next h =>
      rw [if_neg h]
      apply toInt64_of_le
      · omega
      · unfold int64Max
        exact hle

/-- Beyond its largest value the common representation wraps around. -/
theorem common_of_gt (hx : rep.commonMax < x) : rep.common x ≤ x - 2 ^ 64 := by
  unfold IntegralRep.common
  unfold IntegralRep.commonMax at hx
  split at hx
  · next h =>
      rw [if_pos h]
      omega
  · next h =>
      rw [if_neg h]
      exact toInt64_of_gt hx

/-- The common representation is bounded from below. -/
theorem common_ge : -2 ^ 63 ≤ rep.common x := by
  unfold IntegralRep.common
  split
  · omega
  · exact toInt64_ge x

/-- The common representation is at least as wide as the clock's. -/
theorem commonMax_ge : (2 : ℤ) ^ 63 - 1 ≤ rep.commonMax := by
  unfold IntegralRep.commonMax
  split <;> omega

/-- Every count of the representation is a value of the common type. -/
theorem count_le_commonMax (timeout : Timeout) : (timeout.count : ℤ) ≤ timeout.rep.commonMax := by
  have hcount := timeout.count_le
  have hbits := timeout.rep.bits_le
  unfold IntegralRep.max at hcount
  unfold IntegralRep.commonMax IntegralRep.commonUnsigned
  split at hcount
  · next hsigned =>
      have hpow : 2 ^ (timeout.rep.bits - 1) ≤ 2 ^ 63 := Nat.pow_le_pow_right (by decide) (by omega)
      simp only [hsigned, Bool.not_true, Bool.false_and, Bool.false_eq_true, if_false]
      omega
  · next hunsigned =>
      rcases Nat.lt_or_ge timeout.rep.bits 64 with hlt | hge
      · have hpow : 2 ^ timeout.rep.bits ≤ 2 ^ 63 := Nat.pow_le_pow_right (by decide) (by omega)
        split <;> omega
      · have heq : timeout.rep.bits = 64 := by omega
        rw [heq] at hcount
        simp [hunsigned, heq]
        omega

end Wrapping

section Cast

variable (timeout : Timeout)

/-- The count times the numerator of the conversion factor. -/
def scaled : ℕ := timeout.count * factorNum timeout.period.num timeout.period.den

/-- The denominator of the conversion factor is not zero. -/
theorem factorDen_pos : 0 < factorDen timeout.period.num timeout.period.den := by
  have hden := timeout.period.den_pos
  apply Nat.div_pos
  · exact Nat.le_of_dvd hden (Nat.gcd_dvd_right _ _)
  · exact Nat.gcd_pos_of_pos_right _ hden

/-- The conversion factor is the period in nanoseconds, reduced. -/
theorem nanos_eq :
    timeout.nanos = scaled timeout / factorDen timeout.period.num timeout.period.den := by
  have hg : 0 < (timeout.period.num * 10 ^ 9).gcd timeout.period.den :=
    Nat.gcd_pos_of_pos_right _ timeout.period.den_pos
  have hnum : timeout.period.num * 10 ^ 9 =
      (timeout.period.num * 10 ^ 9).gcd timeout.period.den *
        factorNum timeout.period.num timeout.period.den :=
    (Nat.mul_div_cancel' (Nat.gcd_dvd_left _ _)).symm
  have hden : timeout.period.den =
      (timeout.period.num * 10 ^ 9).gcd timeout.period.den *
        factorDen timeout.period.num timeout.period.den :=
    (Nat.mul_div_cancel' (Nat.gcd_dvd_right _ _)).symm
  unfold Timeout.nanos scaled
  calc timeout.count * (timeout.period.num * 10 ^ 9) / timeout.period.den
      = (timeout.period.num * 10 ^ 9).gcd timeout.period.den *
          (timeout.count * factorNum timeout.period.num timeout.period.den) /
          ((timeout.period.num * 10 ^ 9).gcd timeout.period.den *
            factorDen timeout.period.num timeout.period.den) := by
        rw [← hden, Nat.mul_left_comm _ timeout.count, ← hnum]
    _ = _ := Nat.mul_div_mul_left _ _ hg

/-- The quotient before it is narrowed to the clock's representation. -/
def quotient : ℤ :=
  (timeout.rep.common (scaled timeout)).tdiv (factorDen timeout.period.num timeout.period.den : ℕ)

/-- The special cases of `duration_cast` only leave out operations that do nothing. -/
theorem durationCast_eq : durationCast timeout = toInt64 (quotient timeout) := by
  have hcount : timeout.rep.common timeout.count = timeout.count :=
    common_of_le _ (by omega) (count_le_commonMax timeout)
  unfold durationCast quotient scaled
  simp only [hcount]
  split
  · next h =>
      rw [h.1, h.2, Nat.mul_one, hcount, Nat.cast_one, Int.tdiv_one]
  · split
    · next h =>
        rw [h, Nat.cast_one, Int.tdiv_one, Nat.cast_mul]
    · split
      · next h => rw [h, Nat.mul_one, hcount]
      · rw [Nat.cast_mul]

/-- What `duration_cast` has computed before its last conversion is in range from below. -/
theorem quotient_ge : -2 ^ 63 ≤ quotient timeout := by
  have hge := common_ge timeout.rep (x := scaled timeout)
  have hden := factorDen_pos timeout
  unfold quotient
  generalize timeout.rep.common (scaled timeout) = w at hge
  generalize factorDen timeout.period.num timeout.period.den = d at hden
  rcases le_or_gt 0 w with hw | hw
  · have hnonneg := Int.tdiv_nonneg hw (Int.natCast_nonneg d)
    omega
  · obtain ⟨n, rfl⟩ : ∃ n : ℕ, w = -n := ⟨w.natAbs, by omega⟩
    rw [Int.neg_tdiv, ← Int.ofNat_tdiv]
    have hdiv := Nat.div_le_self n d
    omega

/-- Without an overflow the product is divided exactly. -/
theorem quotient_of_le (h : (scaled timeout : ℤ) ≤ timeout.rep.commonMax) :
    quotient timeout = timeout.nanos := by
  rw [quotient, common_of_le _ (by omega) h, nanos_eq, ← Int.ofNat_tdiv]

/-- A product that wraps loses more than the denominator. -/
theorem quotient_of_gt (h : timeout.rep.commonMax < (scaled timeout : ℤ)) :
    quotient timeout < timeout.nanos := by
  have hle := common_of_gt timeout.rep h
  have hmax := commonMax_ge timeout.rep
  have hden := factorDen_pos timeout
  have hfits := timeout.period.den_fits
  rw [quotient, nanos_eq]
  generalize timeout.rep.common (scaled timeout) = w at hle
  generalize factorDen timeout.period.num timeout.period.den = d at hden hfits
  generalize scaled timeout = p at *
  have hone : 1 ≤ p / d := by
    apply (Nat.one_le_div_iff hden).mpr
    omega
  rcases le_or_gt 0 w with hw | hw
  · obtain ⟨n, rfl⟩ : ∃ n : ℕ, w = n := ⟨w.toNat, by omega⟩
    rw [← Int.ofNat_tdiv]
    have hlt : n / d < p / d := by
      have hstep : (n + d) / d ≤ p / d := Nat.div_le_div_right (by omega)
      rw [Nat.add_div_right _ hden] at hstep
      omega
    exact_mod_cast hlt
  · have hneg : w.tdiv d ≤ 0 := by
      obtain ⟨n, rfl⟩ : ∃ n : ℕ, w = -n := ⟨w.natAbs, by omega⟩
      rw [Int.neg_tdiv, ← Int.ofNat_tdiv]
      exact neg_nonpos.mpr (Int.natCast_nonneg _)
    omega

/-- An overflow never enlarges the timeout. -/
theorem quotient_le : quotient timeout ≤ timeout.nanos := by
  rcases le_or_gt (scaled timeout : ℤ) timeout.rep.commonMax with h | h
  · exact (quotient_of_le timeout h).le
  · exact (quotient_of_gt timeout h).le

end Cast

section Deadline

variable {now : ℤ} (timeout : Timeout)

/-- `duration_cast` stays in range from below. -/
theorem durationCast_ge : -2 ^ 63 ≤ durationCast timeout := by
  rw [durationCast_eq]
  exact toInt64_ge _

/-- `duration_cast` never enlarges the timeout. -/
theorem durationCast_le : durationCast timeout ≤ timeout.nanos := by
  rw [durationCast_eq]
  exact (toInt64_le (quotient_ge timeout)).trans (quotient_le timeout)

/-- **The deadline is never later than the exact one.** -/
theorem deadline_le (hnow : 0 ≤ now) : deadline now timeout ≤ now + timeout.nanos := by
  have hge := durationCast_ge timeout
  have hle := durationCast_le timeout
  have hwrap : toInt64 (now + durationCast timeout) ≤ now + durationCast timeout :=
    toInt64_le (by omega)
  unfold deadline
  omega

/-- **It is the exact one just when nothing overflows.** -/
theorem deadline_eq_iff (hnow : 0 ≤ now) :
    deadline now timeout = now + timeout.nanos ↔ Fits now timeout := by
  have hge := durationCast_ge timeout
  have hle := durationCast_le timeout
  have hscaled : (timeout.count * factorNum timeout.period.num timeout.period.den : ℤ) =
      scaled timeout := by
    unfold scaled
    push_cast
    rfl
  unfold Fits
  rw [hscaled]
  constructor
  · intro heq
    unfold deadline at heq
    have hwrap : toInt64 (now + durationCast timeout) ≤ now + durationCast timeout :=
      toInt64_le (by omega)
    have hcast : durationCast timeout = timeout.nanos := by omega
    rw [hcast] at heq
    refine ⟨?_, (toInt64_eq_iff (by omega)).mp heq⟩
    by_contra hgt
    have hlt := quotient_of_gt timeout (not_le.mp hgt)
    have hnarrow := toInt64_le (quotient_ge timeout)
    rw [← durationCast_eq] at hnarrow
    omega
  · intro ⟨hproduct, hsum⟩
    have hcast : durationCast timeout = timeout.nanos := by
      rw [durationCast_eq, quotient_of_le timeout hproduct]
      exact toInt64_of_le (by omega) (by omega)
    rw [deadline, hcast]
    exact toInt64_of_le (by omega) hsum

/-- A shorter timeout has no more nanoseconds. -/
theorem nanos_mono {shorter longer : Timeout} (h : shorter.NoLonger longer) :
    shorter.nanos ≤ longer.nanos := by
  unfold Timeout.nanos
  apply (Nat.le_div_iff_mul_le longer.period.den_pos).mpr
  apply Nat.le_of_mul_le_mul_right _ shorter.period.den_pos
  calc shorter.count * (shorter.period.num * 10 ^ 9) / shorter.period.den * longer.period.den *
        shorter.period.den
      = shorter.count * (shorter.period.num * 10 ^ 9) / shorter.period.den * shorter.period.den *
          longer.period.den := by ring
    _ ≤ shorter.count * (shorter.period.num * 10 ^ 9) * longer.period.den :=
        Nat.mul_le_mul_right _ (Nat.div_mul_le_self _ _)
    _ = shorter.count * shorter.period.num * longer.period.den * 10 ^ 9 := by ring
    _ ≤ longer.count * longer.period.num * shorter.period.den * 10 ^ 9 :=
        Nat.mul_le_mul_right _ h
    _ = longer.count * (longer.period.num * 10 ^ 9) * shorter.period.den := by ring

end Deadline

section Waiting

variable {limit : ℤ} {rounds : List Round} {t : Option ℤ}

/-- The lock-free loop returns `timeout` only on a reading at or past the deadline. -/
theorem lockFreeWait_timeout (h : lockFreeWait limit rounds = some (.timeout, t)) :
    ∃ reading, t = some reading ∧ limit ≤ reading := by
  induction rounds with
  | nil => cases h
  | cons round rest ih =>
      simp only [lockFreeWait] at h
      split at h
      · cases hview : round.before <;> rw [hview] at h <;> cases h
      · split at h
        · cases h
        · split at h
          · next hpassed =>
              obtain ⟨-, rfl⟩ := Prod.mk.inj (Option.some.inj h)
              exact ⟨round.clock, rfl, hpassed⟩
          · exact ih h

/-- Over the mutex-based queue `timeout` comes after a reading past the deadline. -/
theorem mutexWait_timeout (h : mutexWait limit rounds = some (.timeout, t)) :
    ∃ reading, t = some reading ∧ limit ≤ reading := by
  induction rounds with
  | nil => cases h
  | cons round rest ih =>
      simp only [mutexWait] at h
      split at h
      · cases hview : round.before <;> rw [hview] at h <;> cases h
      · split at h
        · cases h
        · split at h
          · next hpassed =>
              refine ⟨round.clock, ?_, hpassed⟩
              split at h <;> exact (Prod.mk.inj (Option.some.inj h)).2.symm
          · exact ih h

/-- **Both loops wait for the deadline they are given.** -/
theorem waitPushUntil_timeout {policy : Policy}
    (h : waitPushUntil policy limit rounds = some (.timeout, t)) :
    ∃ reading, t = some reading ∧ limit ≤ reading := by
  cases policy with
  | mutex => exact mutexWait_timeout h
  | lockFree => exact lockFreeWait_timeout h

/-- A full queue makes them return at the deadline. -/
theorem waitPushUntil_stuck (policy : Policy) {round : Round} (hstuck : round.Stuck)
    (hpassed : limit ≤ round.clock) :
    waitPushUntil policy limit [round] = some (.timeout, some round.clock) := by
  obtain ⟨hbefore, hafter, hstop, hstop'⟩ := hstuck
  cases policy with
  | mutex =>
      show mutexWait limit [round] = _
      simp [mutexWait, hbefore, hafter, hstop, hstop', hpassed]
  | lockFree =>
      show lockFreeWait limit [round] = _
      simp [lockFreeWait, hbefore, hafter, hstop, hpassed, View.push]

end Waiting

/-- **`publish_for` honours its timeout exactly when the conversion and the addition do
not overflow.** -/
theorem honours_iff {now : ℤ} (hnow : 0 ≤ now) (timeout : Timeout) :
    Honours now timeout ↔ Fits now timeout := by
  rw [← deadline_eq_iff timeout hnow]
  have hle := deadline_le timeout hnow
  constructor
  · intro h
    -- the deadline itself is a reading at which a full queue gives up
    obtain ⟨reading, hreading, hwait⟩ := h.waits .mutex
      [⟨false, .full, deadline now timeout, .full, false⟩]
      (by simp [Round.Stuck])
      (by
        refine ⟨by simpa using h.now_le, ?_⟩
        simp only [List.mem_singleton, forall_eq]
        exact toInt64_le_max _)
      _ (waitPushUntil_stuck .mutex ⟨rfl, rfl, rfl, rfl⟩ le_rfl)
    cases hreading
    change (timeout.nanos : ℤ) ≤ deadline now timeout - now at hwait
    omega
  · intro heq
    refine ⟨by omega, ?_, ?_⟩
    · intro policy rounds _ _ t hreturn
      obtain ⟨reading, rfl, hreading⟩ := waitPushUntil_timeout hreturn
      exact ⟨reading, rfl, by omega⟩
    · intro shorter hshorter
      have hshort := deadline_le shorter hnow
      have hnanos := nanos_mono hshorter
      omega

/-- `std::chrono::seconds` and its relatives: a signed 64-bit count of a period. -/
def standard (period : Period) (count : ℕ) (h : count ≤ 2 ^ 63 - 1) : Timeout where
  rep := ⟨true, 64, by decide, le_rfl⟩
  period := period
  count := count
  count_le := h

/-- `std::nano`. -/
def nano : Period where
  num := 1
  den := 10 ^ 9
  num_pos := by decide
  den_pos := by decide
  coprime := Nat.coprime_one_left _
  num_fits := by decide
  den_fits := by decide

/-- `std::milli`. -/
def milli : Period where
  num := 1
  den := 1000
  num_pos := by decide
  den_pos := by decide
  coprime := Nat.coprime_one_left _
  num_fits := by decide
  den_fits := by decide

/-- Twenty milliseconds, an hour after the clock started. -/
theorem honours_iff_milliseconds :
    Honours 3600000000000 (standard milli 20 (by decide)) := by
  apply (honours_iff (by decide) _).mpr
  constructor <;> decide

/-- `nanoseconds::max()` one nanosecond after the clock started: the deadline lies before
every reading, and a full queue gives up at once. -/
theorem longest_timeout_passed :
    deadline 1 (standard nano (2 ^ 63 - 1) le_rfl) = -2 ^ 63 ∧
      (∀ policy, publishFor policy 1 (standard nano (2 ^ 63 - 1) le_rfl)
        [⟨false, .full, 1, .full, false⟩] = some (.timeout, some 1)) ∧
      ¬ Honours 1 (standard nano (2 ^ 63 - 1) le_rfl) := by
  have hdeadline : deadline 1 (standard nano (2 ^ 63 - 1) le_rfl) = -2 ^ 63 := by decide +kernel
  refine ⟨hdeadline, ?_, ?_⟩
  · intro policy
    apply waitPushUntil_stuck policy ⟨rfl, rfl, rfl, rfl⟩
    rw [hdeadline]
    decide
  · intro h
    have hle := h.now_le
    rw [hdeadline] at hle
    exact absurd hle (by decide)

end PublishFor

end EventDispatcher
