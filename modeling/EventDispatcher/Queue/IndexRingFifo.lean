import EventDispatcher.Lib.BitFields
import EventDispatcher.Queue.IndexRing

/-!
# The index ring is a FIFO when operations run one at a time

`Represents k h xs r` ties the words of a ring of capacity `2 ^ k` to the list
`xs` of indices inside.  `h` is the ticket of the oldest index, counted without
wrapping; the tickets in use are the last `2 ^ (k + 1)` ones, and every slot
carries the cycle tag of its ticket.  Tickets start high enough for the slots of a
fresh ring to count as used by earlier tickets.
-/

namespace EventDispatcher

namespace IndexRing

open BitFields

/-- The cycle tag of a ticket. -/
def tagOf (k ticket : ℕ) : ℕ := ticket / 2 ^ (k + 1) % 2 ^ (62 - k)

/-- An entry with its safe bit set. -/
def entryWord (k tag index : ℕ) : ℕ := 2 ^ (k + 2) * tag + (2 ^ (k + 1) + index)

/-- The mark of an entry without an index. -/
def emptyMark (k : ℕ) : ℕ := 2 ^ (k + 1) - 1

section Constants

variable {k : ℕ}

/-- The tags of an entry take what the rest of the word leaves. -/
theorem two_pow_split (hk : k ≤ 61) : 2 ^ (k + 2) * 2 ^ (62 - k) = wordSize := by
  unfold wordSize
  rw [← pow_add]
  congr 1
  omega

/-- An entry has room for two cycles of indices. -/
theorem ring_lt (hk : k ≤ 61) : 2 * 2 ^ (k + 2) ≤ wordSize := by
  calc 2 * 2 ^ (k + 2) = 2 ^ (k + 3) := by ring
    _ ≤ 2 ^ 64 := Nat.pow_le_pow_right (by decide) (by omega)
    _ = wordSize := by unfold wordSize; rfl

/-- Subtraction of words without a borrow. -/
theorem wordSub_of_le {a b : ℕ} (hb : b ≤ a) (ha : a < wordSize) : wordSub a b = a - b := by
  have hsum : a + (wordSize - b) = a - b + wordSize := by omega
  rw [wordSub, hsum, Nat.add_mod_right, Nat.mod_eq_of_lt (by omega)]

/-- Subtraction of words with a borrow. -/
theorem wordSub_of_lt {a b : ℕ} (hab : a < b) (hb : b ≤ wordSize) :
    wordSub a b = wordSize - (b - a) := by
  have hsum : a + (wordSize - b) = wordSize - (b - a) := by omega
  rw [wordSub, hsum, Nat.mod_eq_of_lt (by omega)]

/-- The entries of a ring for `2 ^ k` indices. -/
theorem ringSize_eq (hk : k ≤ 61) : ringSize (2 ^ k) = 2 ^ (k + 1) := by
  have hlt := ring_lt hk
  have hpos : 0 < 2 ^ (k + 1) := Nat.two_pow_pos _
  have hpow : (2 : ℕ) ^ (k + 2) = 2 * 2 ^ (k + 1) := by ring
  rw [ringSize, ← pow_succ, Nat.mod_eq_of_lt (by omega)]

/-- The mask for a slot of the ring. -/
theorem ringMask_eq (hk : k ≤ 61) : ringMask (2 ^ k) = 2 ^ (k + 1) - 1 := by
  have hlt := ring_lt hk
  have hpos : 0 < 2 ^ (k + 1) := Nat.two_pow_pos _
  have hpow : (2 : ℕ) ^ (k + 2) = 2 * 2 ^ (k + 1) := by ring
  rw [ringMask, ringSize_eq hk, wordSub_of_le (by omega) (by omega)]

/-- The mask for the part of an entry below its tag. -/
theorem cycleMask_eq (hk : k ≤ 61) : cycleMask (2 ^ k) = 2 ^ (k + 2) - 1 := by
  have hlt := ring_lt hk
  have hpos : 0 < 2 ^ (k + 2) := Nat.two_pow_pos _
  have hpow : 2 ^ (k + 1) * 2 = 2 ^ (k + 2) := by ring
  rw [cycleMask, ringSize_eq hk, hpow, Nat.mod_eq_of_lt (by omega),
    wordSub_of_le (by omega) (by omega)]

/-- The threshold that `enqueue` sets. -/
theorem initialThreshold_eq (hk : k ≤ 61) : initialThreshold (2 ^ k) = 3 * 2 ^ k - 1 := by
  have hle : 2 ^ k ≤ 2 ^ 61 := Nat.pow_le_pow_right (by decide) hk
  have hpos : 0 < 2 ^ k := Nat.two_pow_pos _
  have hpow : 2 ^ (k + 1) = 2 * 2 ^ k := by ring
  have hword : wordSize = 2 ^ 64 := by unfold wordSize; rfl
  rw [initialThreshold, ringSize_eq hk, hpow, Nat.mod_eq_of_lt (by omega),
    wordSub_of_le (by omega) (by omega), toSigned, if_pos (by omega)]
  push_cast [Nat.cast_sub (by omega : 1 ≤ 2 ^ k + 2 * 2 ^ k)]
  ring

end Constants

section Words

variable {k tag index ticket : ℕ}

/-- The tag and the slot of a ticket are read off its wrapped word. -/
theorem ticketCycle_eq (hk : k ≤ 61) :
    ticketCycle (2 ^ k) (ticket % wordSize) =
      2 ^ (k + 2) * tagOf k ticket + (2 ^ (k + 2) - 1) := by
  have hshift : (ticket % wordSize) <<< 1 % wordSize = 2 * (ticket % 2 ^ 63) := by
    unfold wordSize
    rw [Nat.shiftLeft_eq]
    omega
  have hsplit : 2 ^ 63 = 2 ^ (k + 1) * 2 ^ (62 - k) := by
    rw [← pow_add]
    congr 1
    omega
  have htag : ticket % 2 ^ 63 / 2 ^ (k + 1) = tagOf k ticket := by
    rw [hsplit, Nat.mod_mul_right_div_self, tagOf]
  have hword : 2 * (ticket % 2 ^ 63) =
      2 ^ (k + 2) * tagOf k ticket + 2 * (ticket % 2 ^ 63 % 2 ^ (k + 1)) := by
    have hdiv := Nat.div_add_mod (ticket % 2 ^ 63) (2 ^ (k + 1))
    rw [htag] at hdiv
    calc 2 * (ticket % 2 ^ 63)
        = 2 * (2 ^ (k + 1) * tagOf k ticket + ticket % 2 ^ 63 % 2 ^ (k + 1)) := by rw [hdiv]
      _ = _ := by ring
  have hlow : 2 * (ticket % 2 ^ 63 % 2 ^ (k + 1)) < 2 ^ (k + 2) := by
    have hmod := Nat.mod_lt (ticket % 2 ^ 63) (Nat.two_pow_pos (k + 1))
    have hpow : (2 : ℕ) ^ (k + 2) = 2 * 2 ^ (k + 1) := by ring
    omega
  rw [ticketCycle, hshift, cycleMask_eq hk, hword, or_mask hlow]

/-- A ticket is mapped to its slot, also when its counter has wrapped around. -/
theorem map_eq (hk : k ≤ 61) : map (2 ^ k) (ticket % wordSize) = ticket % 2 ^ (k + 1) := by
  rw [map, ringMask_eq hk, Nat.and_two_pow_sub_one_eq_mod]
  apply Nat.mod_mod_of_dvd
  rw [← two_pow_split hk]
  exact Dvd.dvd.mul_right (pow_dvd_pow 2 (by omega)) _

/-- An empty entry has all its low bits set. -/
theorem entryWord_emptyMark : entryWord k tag (emptyMark k) =
    2 ^ (k + 2) * tag + (2 ^ (k + 2) - 1) := by
  have hpos : 0 < 2 ^ (k + 1) := Nat.two_pow_pos _
  have hpow : (2 : ℕ) ^ (k + 2) = 2 * 2 ^ (k + 1) := by ring
  unfold entryWord emptyMark
  omega

/-- Emptying an entry keeps its tag. -/
theorem entryWord_or_cycleMask (hk : k ≤ 61) (hindex : index < 2 ^ (k + 1)) :
    entryWord k tag index ||| cycleMask (2 ^ k) = 2 ^ (k + 2) * tag + (2 ^ (k + 2) - 1) := by
  have hpow : (2 : ℕ) ^ (k + 2) = 2 * 2 ^ (k + 1) := by ring
  rw [cycleMask_eq hk, entryWord, or_mask (by omega)]

/-- What `enqueue` stores. -/
theorem encode_eq (hk : k ≤ 61) (hindex : index < 2 ^ (k + 1)) :
    (2 ^ (k + 2) * tag + (2 ^ (k + 2) - 1)) ^^^ (index ^^^ ringMask (2 ^ k)) =
      entryWord k tag index := by
  have hpow : (2 : ℕ) ^ (k + 2) = 2 * 2 ^ (k + 1) := by ring
  rw [ringMask_eq hk, Nat.xor_comm index, mask_xor hindex, xor_low (by omega) (by omega),
    mask_xor (by omega), entryWord]
  omega

/-- The index of an entry. -/
theorem entryWord_and_ringMask (hk : k ≤ 61) (hindex : index < 2 ^ (k + 1)) :
    entryWord k tag index &&& ringMask (2 ^ k) = index := by
  have hword : entryWord k tag index = 2 ^ (k + 1) * (2 * tag + 1) + index := by
    unfold entryWord
    ring
  rw [ringMask_eq hk, hword, and_mask hindex]

/-- Marking an entry as empty keeps its tag. -/
theorem entryWord_or_ringMask (hk : k ≤ 61) (hindex : index < 2 ^ (k + 1)) :
    entryWord k tag index ||| ringMask (2 ^ k) = entryWord k tag (emptyMark k) := by
  have hword : ∀ i, entryWord k tag i = 2 ^ (k + 1) * (2 * tag + 1) + i := by
    intro i
    unfold entryWord
    ring
  rw [ringMask_eq hk, hword, hword, or_mask hindex, emptyMark]

/-- Marking an entry as safe changes nothing where it is safe. -/
theorem entryWord_or_ringSize (hk : k ≤ 61) (hindex : index < 2 ^ (k + 1)) :
    entryWord k tag index ||| ringSize (2 ^ k) = entryWord k tag index := by
  have hword : entryWord k tag index = 2 ^ (k + 1) * (2 * tag + 1) + index := by
    unfold entryWord
    ring
  rw [ringSize_eq hk, hword, or_bit hindex]

/-- The safe bit of a safe entry stays set in its replacement. -/
theorem not_entryWord_and_ringSize (hk : k ≤ 61) (htag : tag < 2 ^ (62 - k))
    (hindex : index < 2 ^ (k + 1)) :
    wordNot (entryWord k tag index) &&& ringSize (2 ^ k) = 0 := by
  have hpow : (2 : ℕ) ^ (k + 2) = 2 * 2 ^ (k + 1) := by ring
  have hword : wordNot (entryWord k tag index) =
      2 ^ (k + 1) * (2 * (2 ^ (62 - k) - 1 - tag)) + (2 ^ (k + 1) - 1 - index) := by
    have hsplit := two_pow_split hk
    obtain ⟨rest, hrest⟩ := Nat.exists_eq_add_of_lt htag
    have hsum : wordSize = 2 ^ (k + 2) * tag + 2 ^ (k + 2) * rest + 2 ^ (k + 2) := by
      rw [← hsplit, hrest]
      ring
    have hquot : 2 ^ (62 - k) - 1 - tag = rest := by omega
    have hmul : 2 ^ (k + 1) * (2 * rest) = 2 ^ (k + 2) * rest := by ring
    rw [wordNot, entryWord, hquot, hmul]
    omega
  rw [hword, ringSize_eq hk, and_bit_eq_zero (by omega)]

end Words

section Order

variable {k ticket : ℕ}

/-- A tag fits into the high part of an entry. -/
theorem tagOf_lt : tagOf k ticket < 2 ^ (62 - k) := Nat.mod_lt _ (Nat.two_pow_pos _)

/-- One round later the tag has moved on by one, modulo the tags there are. -/
theorem tagOf_add : tagOf k (ticket + 2 ^ (k + 1)) = (tagOf k ticket + 1) % 2 ^ (62 - k) := by
  rw [tagOf, Nat.add_div_right _ (Nat.two_pow_pos _), tagOf, Nat.mod_add_mod]

/-- Two tickets for one slot in a row have different tags. -/
theorem tagOf_ne (hk : k ≤ 61) : tagOf k ticket ≠ tagOf k (ticket + 2 ^ (k + 1)) := by
  have hlt : tagOf k ticket < 2 ^ (62 - k) := tagOf_lt
  have htwo : 2 ≤ 2 ^ (62 - k) := by
    calc 2 = 2 ^ 1 := rfl
      _ ≤ 2 ^ (62 - k) := Nat.pow_le_pow_right (by decide) (by omega)
  rw [tagOf_add]
  rcases Nat.lt_or_ge (tagOf k ticket + 1) (2 ^ (62 - k)) with hsmall | hlarge
  · rw [Nat.mod_eq_of_lt hsmall]
    omega
  · have heq : tagOf k ticket + 1 = 2 ^ (62 - k) := by omega
    rw [heq, Nat.mod_self]
    omega

/-- Equal cycles have equal tags. -/
theorem cycle_inj {a b : ℕ}
    (h : 2 ^ (k + 2) * a + (2 ^ (k + 2) - 1) = 2 ^ (k + 2) * b + (2 ^ (k + 2) - 1)) : a = b :=
  Nat.eq_of_mul_eq_mul_left (Nat.two_pow_pos (k + 2)) (by omega)

/-- The entry that a slot holds from the last round comes before the ticket of this
one, also when the tag wraps. -/
theorem before_next (hk : k ≤ 61) :
    before (2 ^ (k + 2) * tagOf k ticket + (2 ^ (k + 2) - 1))
      (2 ^ (k + 2) * tagOf k (ticket + 2 ^ (k + 1)) + (2 ^ (k + 2) - 1)) = true := by
  have hlt : tagOf k ticket < 2 ^ (62 - k) := tagOf_lt
  have hring := ring_lt hk
  have hpos : 0 < 2 ^ (k + 2) := Nat.two_pow_pos _
  have hword : wordSize = 2 ^ 64 := by unfold wordSize; rfl
  -- in both cases the difference is one round short of a full turn
  have hsub : wordSub (2 ^ (k + 2) * tagOf k ticket + (2 ^ (k + 2) - 1))
      (2 ^ (k + 2) * tagOf k (ticket + 2 ^ (k + 1)) + (2 ^ (k + 2) - 1)) =
      wordSize - 2 ^ (k + 2) := by
    have hsplit := two_pow_split hk
    rw [tagOf_add]
    rcases Nat.lt_or_ge (tagOf k ticket + 1) (2 ^ (62 - k)) with hsmall | hlarge
    · have hle : 2 ^ (k + 2) * (tagOf k ticket + 2) ≤ 2 ^ (k + 2) * 2 ^ (62 - k) :=
        Nat.mul_le_mul_left _ (by omega)
      rw [Nat.mod_eq_of_lt hsmall, wordSub_of_lt]
      · rw [Nat.mul_add]
        omega
      · rw [Nat.mul_add]
        omega
      · rw [Nat.mul_add] at hle ⊢
        omega
    · have heq : tagOf k ticket + 1 = 2 ^ (62 - k) := by omega
      have htop : 2 ^ (k + 2) * tagOf k ticket + 2 ^ (k + 2) = wordSize := by
        rw [← hsplit, ← heq]
        ring
      rw [heq, Nat.mod_self, wordSub_of_le (by omega) (by omega)]
      omega
  rw [before, hsub, toSigned, if_neg (by omega), decide_eq_true_eq]
  generalize 2 ^ (k + 2) = round at hpos hring
  omega

/-- `tail <= head + 1` when the ring is empty. -/
theorem beforeOrEqual_succ :
    beforeOrEqual (ticket % wordSize) ((ticket + 1) % wordSize) = true := by
  have hword : wordSize = 2 ^ 64 := by unfold wordSize; rfl
  have hsub : wordSub (ticket % wordSize) ((ticket + 1) % wordSize) = wordSize - 1 := by
    rw [wordSub, hword]
    omega
  rw [beforeOrEqual, hsub, hword]
  decide

end Order

/-- The ring of capacity `2 ^ k` holds the indices `xs`, the oldest of them at
ticket `h`. -/
structure Represents (k h : ℕ) (xs : List ℕ) (r : IndexRing) : Prop where
  capacity : r.capacity = 2 ^ k
  head : r.head = h % wordSize
  tail : r.tail = (h + xs.length) % wordSize
  started : 2 ^ (k + 1) ≤ h
  length_le : xs.length ≤ 2 ^ k
  bounded : ∀ x ∈ xs, x < 2 ^ k
  /-- tickets from `h` on hold the indices -/
  used : ∀ i x, xs[i]? = some x → r.entries ((h + i) % 2 ^ (k + 1)) = entryWord k (tagOf k (h + i)) x
  /-- the other slots are empty since their last ticket -/
  free : ∀ j, h + xs.length ≤ j + 2 ^ (k + 1) → j < h →
    r.entries (j % 2 ^ (k + 1)) = entryWord k (tagOf k j) (emptyMark k)
  threshold_ge : -1 ≤ r.threshold
  threshold_le : r.threshold ≤ 3 * 2 ^ k - 1
  armed : xs ≠ [] → r.threshold = 3 * 2 ^ k - 1

namespace Represents

variable {k h : ℕ} {xs : List ℕ} {r : IndexRing}

/-- Two tickets of one round use different slots. -/
theorem slot_ne {i j n : ℕ} (hij : i < j) (hj : j < i + n) : i % n ≠ j % n := by
  intro heq
  have hdvd : n ∣ j - i := (Nat.modEq_iff_dvd' hij.le).mp heq
  have hle := Nat.le_of_dvd (by omega) hdvd
  omega

/-- `wordSize` is a whole number of rounds. -/
theorem wordSize_eq (hk : k ≤ 61) : wordSize = 2 ^ (k + 1) * (2 * 2 ^ (62 - k)) := by
  rw [← two_pow_split hk]
  ring

/-- A slot of a fresh ring counts as used in the last round before the tickets
start. -/
theorem fresh_entry (hk : k ≤ 61) {j : ℕ} (hlow : wordSize ≤ j + 2 ^ (k + 1))
    (hhigh : j < wordSize) : wordSize - 1 = entryWord k (tagOf k j) (emptyMark k) := by
  have hrounds := wordSize_eq hk
  have hpos : 0 < 2 ^ (62 - k) := Nat.two_pow_pos _
  have hquot : j / 2 ^ (k + 1) = 2 * 2 ^ (62 - k) - 1 := by
    apply Nat.div_eq_of_lt_le
    · rw [Nat.sub_mul, Nat.mul_comm _ (2 ^ (k + 1))]
      omega
    · rw [Nat.sub_add_cancel (by omega), Nat.mul_comm]
      omega
  have htag : tagOf k j = 2 ^ (62 - k) - 1 := by
    rw [tagOf, hquot]
    have hsplit : 2 * 2 ^ (62 - k) - 1 = 2 ^ (62 - k) + (2 ^ (62 - k) - 1) := by omega
    rw [hsplit, Nat.add_mod_left, Nat.mod_eq_of_lt (by omega)]
  have hsplit := two_pow_split hk
  have hround : 2 ^ (k + 2) ≤ wordSize := by
    have hring := ring_lt hk
    omega
  have hone : 0 < 2 ^ (k + 2) := Nat.two_pow_pos _
  rw [htag, entryWord_emptyMark, Nat.mul_sub, hsplit, Nat.mul_one]
  generalize 2 ^ (k + 2) = round at hround hone ⊢
  omega

/-- One turn of the ring is within the range of its counters. -/
theorem started_le (hk : k ≤ 61) : 2 ^ (k + 1) ≤ wordSize := by
  have hring := ring_lt hk
  have hpow : (2 : ℕ) ^ (k + 2) = 2 * 2 ^ (k + 1) := by ring
  omega

/-- **The empty ring.** -/
theorem initializeEmpty (hk : k ≤ 61) :
    Represents k wordSize [] (IndexRing.initializeEmpty (2 ^ k)) where
  capacity := rfl
  head := (Nat.mod_self _).symm
  tail := (Nat.mod_self _).symm
  started := started_le hk
  length_le := Nat.zero_le _
  bounded := by simp
  used := by simp
  free := fun _ hlow hhigh => fresh_entry hk hlow hhigh
  threshold_ge := le_rfl
  threshold_le := by
    have hpos : (0 : ℤ) < 2 ^ k := by positivity
    show (-1 : ℤ) ≤ 3 * 2 ^ k - 1
    omega
  armed := fun hne => absurd rfl hne

/-- **The full ring**, with its indices in order. -/
theorem initializeFull (hk : k ≤ 61) :
    Represents k wordSize (List.range (2 ^ k)) (IndexRing.initializeFull (2 ^ k)) where
  capacity := rfl
  head := (Nat.mod_self _).symm
  tail := by
    have hle := started_le hk
    have hpow : (2 : ℕ) ^ (k + 1) = 2 * 2 ^ k := by ring
    have hpos : 0 < 2 ^ k := Nat.two_pow_pos _
    rw [List.length_range, Nat.add_mod_left, Nat.mod_eq_of_lt (by omega)]
    rfl
  started := started_le hk
  length_le := by simp
  bounded := by simp
  used := by
    intro i x hx
    have hpow : (2 : ℕ) ^ (k + 1) = 2 * 2 ^ k := by ring
    have hle := started_le hk
    obtain ⟨hi, rfl⟩ : i < 2 ^ k ∧ i = x := by
      simpa [List.getElem?_eq_some_iff] using hx
    have hslot : (wordSize + i) % 2 ^ (k + 1) = i := by
      rw [wordSize_eq hk, Nat.mul_add_mod, Nat.mod_eq_of_lt (by omega)]
    have htag : tagOf k (wordSize + i) = 0 := by
      rw [tagOf, wordSize_eq hk, Nat.mul_add_div (Nat.two_pow_pos _),
        Nat.div_eq_of_lt (by omega), Nat.add_zero, Nat.mul_mod_left]
    have hring := ring_lt hk
    have hpow' : (2 : ℕ) ^ (k + 2) = 2 * 2 ^ (k + 1) := by ring
    rw [hslot, htag, entryWord]
    show (if i < 2 ^ k then (ringSize (2 ^ k) + i) % wordSize else wordSize - 1) = _
    rw [if_pos hi, ringSize_eq hk, Nat.mod_eq_of_lt (by omega)]
    omega
  free := by
    intro j hlow hhigh
    rw [List.length_range] at hlow
    have hpow : (2 : ℕ) ^ (k + 1) = 2 * 2 ^ k := by ring
    have hle := started_le hk
    rw [← fresh_entry hk (by omega) hhigh]
    -- the slot lies in the upper half of the ring
    have hslot : 2 ^ k ≤ j % 2 ^ (k + 1) := by
      obtain ⟨d, hd⟩ : ∃ d, j + 2 ^ (k + 1) = wordSize + d := ⟨j + 2 ^ (k + 1) - wordSize, by omega⟩
      have hmod : j % 2 ^ (k + 1) = d := by
        rw [← Nat.add_mod_right, hd, wordSize_eq hk, Nat.mul_add_mod, Nat.mod_eq_of_lt (by omega)]
      omega
    exact if_neg (by omega)
  threshold_ge := by
    have hpos : (0 : ℤ) < 2 ^ k := by positivity
    show (-1 : ℤ) ≤ initialThreshold (2 ^ k)
    rw [initialThreshold_eq hk]
    omega
  threshold_le := (initialThreshold_eq hk).le
  armed := fun _ => initialThreshold_eq hk

/-- The threshold is far from the end of its range. -/
theorem signedDec_threshold (hk : k ≤ 61) (hr : Represents k h xs r) (harmed : 0 ≤ r.threshold) :
    signedDec r.threshold = r.threshold - 1 := by
  have hle : (2 : ℤ) ^ k ≤ 2 ^ 61 := pow_le_pow_right₀ (by norm_num) hk
  have hmax := hr.threshold_le
  have hword : ((wordSize : ℕ) : ℤ) = 2 ^ 64 := by unfold wordSize; rfl
  rw [signedDec]
  apply Int.bmod_eq_of_le_mul_two
  · rw [hword]
    omega
  · rw [hword]
    omega

/-- A counter is incremented modulo the word size. -/
theorem wordInc_mod (n : ℕ) : wordInc (n % wordSize) = (n + 1) % wordSize := by
  rw [wordInc, Nat.mod_add_mod]

/-- The mark of an empty entry is below the bit for safety. -/
theorem emptyMark_lt : emptyMark k < 2 ^ (k + 1) := by
  have hpos : 0 < 2 ^ (k + 1) := Nat.two_pow_pos _
  unfold emptyMark
  omega

/-- Where the slots stand after the new index is stored. -/
theorem append (hr : Represents k h xs r) {x : ℕ} (hx : x < 2 ^ k) (hroom : xs.length < 2 ^ k) :
    Represents k h (xs ++ [x])
      { r with
        tail := wordInc r.tail
        entries := Function.update r.entries ((h + xs.length) % 2 ^ (k + 1))
          (entryWord k (tagOf k (h + xs.length)) x)
        threshold := 3 * 2 ^ k - 1 } where
  capacity := hr.capacity
  head := hr.head
  tail := by
    rw [hr.tail, wordInc_mod, List.length_append, List.length_singleton, Nat.add_assoc]
  started := hr.started
  length_le := by
    rw [List.length_append, List.length_singleton]
    omega
  bounded := by
    intro y hy
    rcases List.mem_append.mp hy with hold | hnew
    · exact hr.bounded y hold
    · rw [List.mem_singleton.mp hnew]
      exact hx
  used := by
    intro i y hy
    have hpow : (2 : ℕ) ^ (k + 1) = 2 * 2 ^ k := by ring
    rcases Nat.lt_or_ge i xs.length with hi | hi
    · rw [List.getElem?_append_left hi] at hy
      have hne : (h + i) % 2 ^ (k + 1) ≠ (h + xs.length) % 2 ^ (k + 1) :=
        slot_ne (by omega) (by omega)
      exact (Function.update_of_ne hne _ _).trans (hr.used i y hy)
    · rw [List.getElem?_append_right hi, List.getElem?_singleton] at hy
      split at hy
      · obtain rfl : i = xs.length := by omega
        cases hy
        exact Function.update_self _ _ _
      · cases hy
  free := by
    intro j hlow hhigh
    rw [List.length_append, List.length_singleton] at hlow
    have hne : j % 2 ^ (k + 1) ≠ (h + xs.length) % 2 ^ (k + 1) := slot_ne (by omega) (by omega)
    exact (Function.update_of_ne hne _ _).trans (hr.free j (by omega) hhigh)
  threshold_ge := by
    have hpos : (0 : ℤ) < 2 ^ k := by positivity
    show (-1 : ℤ) ≤ 3 * 2 ^ k - 1
    omega
  threshold_le := le_rfl
  armed := fun _ => rfl

/-- **`enqueue` succeeds on its first ticket** and appends the index. -/
theorem enqueue (hk : k ≤ 61) (hr : Represents k h xs r) {x : ℕ} (hx : x < 2 ^ k)
    (hroom : xs.length < 2 ^ k) (fuel : ℕ) :
    ∃ r', r.enqueue x (fuel + 1) = some r' ∧ Represents k h (xs ++ [x]) r' := by
  have hpow : (2 : ℕ) ^ (k + 1) = 2 * 2 ^ k := by ring
  have hstarted := hr.started
  -- the slot of the new ticket was last used one round ago
  obtain ⟨last, hlast⟩ : ∃ last, h + xs.length = last + 2 ^ (k + 1) :=
    ⟨h + xs.length - 2 ^ (k + 1), by omega⟩
  have hentry : r.entries ((h + xs.length) % 2 ^ (k + 1)) =
      entryWord k (tagOf k last) (emptyMark k) := by
    rw [hlast, Nat.add_mod_right]
    exact hr.free last (by omega) (by omega)
  have hreusable : reusable { r with tail := wordInc r.tail }
      (r.entries (map r.capacity r.tail)) r.tail = true := by
    unfold reusable
    simp only [hr.capacity, hr.tail, map_eq hk, hentry, entryWord_or_cycleMask hk emptyMark_lt,
      ticketCycle_eq hk]
    rw [entryWord_emptyMark, hlast, before_next hk]
    simp
  refine ⟨_, ?_, hr.append hx hroom⟩
  rw [IndexRing.enqueue]
  simp only [hreusable, if_true]
  simp only [hr.capacity, hr.tail, map_eq hk, ticketCycle_eq hk,
    encode_eq hk (by omega : x < 2 ^ (k + 1)), initialThreshold_eq hk]
  split
  · next hthreshold => rw [hthreshold]
  · rfl

/-- Where the slots stand after the oldest index is claimed. -/
theorem dropHead {x : ℕ} (hr : Represents k h (x :: xs) r) :
    Represents k (h + 1) xs
      { r with
        head := wordInc r.head
        entries := Function.update r.entries (h % 2 ^ (k + 1))
          (entryWord k (tagOf k h) (emptyMark k)) } where
  capacity := hr.capacity
  head := by rw [hr.head, wordInc_mod]
  tail := by
    rw [hr.tail, List.length_cons]
    congr 1
    omega
  started := by
    have hstarted := hr.started
    omega
  length_le := by
    have hle := hr.length_le
    rw [List.length_cons] at hle
    omega
  bounded := fun y hy => hr.bounded y (List.mem_cons_of_mem _ hy)
  used := by
    intro i y hy
    have hi : i < xs.length := (List.getElem?_eq_some_iff.mp hy).1
    have hle := hr.length_le
    have hpow : (2 : ℕ) ^ (k + 1) = 2 * 2 ^ k := by ring
    rw [List.length_cons] at hle
    have hne : (h + 1 + i) % 2 ^ (k + 1) ≠ h % 2 ^ (k + 1) := (slot_ne (by omega) (by omega)).symm
    have hold := hr.used (i + 1) y (by simpa using hy)
    rw [← Nat.add_assoc, Nat.add_right_comm] at hold
    exact (Function.update_of_ne hne _ _).trans hold
  free := by
    intro j hlow hhigh
    rcases Nat.lt_or_ge j h with hj | hj
    · have hne : j % 2 ^ (k + 1) ≠ h % 2 ^ (k + 1) := slot_ne hj (by omega)
      refine (Function.update_of_ne hne _ _).trans (hr.free j ?_ hj)
      rw [List.length_cons]
      omega
    · obtain rfl : j = h := by omega
      exact Function.update_self _ _ _
  threshold_ge := hr.threshold_ge
  threshold_le := hr.threshold_le
  armed := fun _ => hr.armed (by simp)

/-- **`try_dequeue` on a non-empty ring** claims the oldest index. -/
theorem tryDequeue_cons (hk : k ≤ 61) {x : ℕ} (hr : Represents k h (x :: xs) r) (fuel : ℕ) :
    ∃ r', r.tryDequeue (fuel + 1) = some (r', some x) ∧ Represents k (h + 1) xs r' := by
  have hpow : (2 : ℕ) ^ (k + 1) = 2 * 2 ^ k := by ring
  have hx : x < 2 ^ (k + 1) := by
    have hlt := hr.bounded x List.mem_cons_self
    omega
  have harmed := hr.armed (by simp)
  have hpos : (0 : ℤ) < 2 ^ k := by positivity
  have hentry : r.entries (h % 2 ^ (k + 1)) = entryWord k (tagOf k h) x := hr.used 0 x rfl
  refine ⟨_, ?_, hr.dropHead⟩
  rw [tryDequeue, if_neg (by omega), dequeueLoop]
  have hclaim : claimLoop { r with head := wordInc r.head } r.head 0 (catchupAttempts + 1) =
      some ({ r with
        head := wordInc r.head
        entries := Function.update r.entries (h % 2 ^ (k + 1))
          (entryWord k (tagOf k h) (emptyMark k)) }, .index x) := by
    rw [claimLoop]
    simp only [hr.capacity, hr.head, map_eq hk, hentry, ticketCycle_eq hk,
      entryWord_or_cycleMask hk hx, if_true, entryWord_or_ringMask hk hx,
      entryWord_and_ringMask hk hx]
  simp only [hclaim]

/-- A ticket past the tail: once the attempts are used up the empty slot is moved on
to this round. -/
theorem claimLoop_miss (hk : k ≤ 61) {last : ℕ} (hcap : r.capacity = 2 ^ k)
    (hentry : r.entries (last % 2 ^ (k + 1)) = entryWord k (tagOf k last) (emptyMark k)) :
    ∀ fuel attempts, catchupAttempts < attempts + fuel →
      attempts ≤ catchupAttempts →
      r.claimLoop ((last + 2 ^ (k + 1)) % wordSize) attempts fuel =
        some ({ r with
          entries := Function.update r.entries (last % 2 ^ (k + 1))
            (entryWord k (tagOf k (last + 2 ^ (k + 1))) (emptyMark k)) }, .missed) := by
  intro fuel
  induction fuel with
  | zero =>
      intro attempts hfuel hattempts
      omega
  | succ fuel ih =>
      intro attempts hfuel hattempts
      have hcycle : ¬ 2 ^ (k + 2) * tagOf k last + (2 ^ (k + 2) - 1) =
          2 ^ (k + 2) * tagOf k (last + 2 ^ (k + 1)) + (2 ^ (k + 2) - 1) :=
        fun heq => tagOf_ne hk (cycle_inj heq)
      rw [claimLoop]
      simp only [hcap, map_eq hk, Nat.add_mod_right, hentry, ticketCycle_eq hk,
        entryWord_or_cycleMask hk emptyMark_lt, entryWord_or_ringSize hk emptyMark_lt,
        not_entryWord_and_ringSize hk tagOf_lt emptyMark_lt, Nat.xor_zero, before_next hk]
      rw [if_neg hcycle, if_neg (not_not.mpr entryWord_emptyMark)]
      split
      · next hmore =>
          rw [ih (attempts + 1) (by omega) hmore, hcap]
      · rw [if_true, entryWord_emptyMark]

/-- Where the slots stand after a failed claim and the catch-up of the tail. -/
theorem moveOn {last : ℕ} (hr : Represents k (last + 2 ^ (k + 1)) [] r) (harmed : 0 ≤ r.threshold) :
    Represents k (last + 2 ^ (k + 1) + 1) []
      { r with
        head := (last + 2 ^ (k + 1) + 1) % wordSize
        tail := (last + 2 ^ (k + 1) + 1) % wordSize
        entries := Function.update r.entries (last % 2 ^ (k + 1))
          (entryWord k (tagOf k (last + 2 ^ (k + 1))) (emptyMark k))
        threshold := r.threshold - 1 } where
  capacity := hr.capacity
  head := rfl
  tail := rfl
  started := by omega
  length_le := Nat.zero_le _
  bounded := by simp
  used := by simp
  free := by
    intro j hlow hhigh
    rw [List.length_nil, Nat.add_zero] at hlow
    rcases Nat.lt_or_ge j (last + 2 ^ (k + 1)) with hj | hj
    · have hne : j % 2 ^ (k + 1) ≠ last % 2 ^ (k + 1) := (slot_ne (by omega) hj).symm
      exact (Function.update_of_ne hne _ _).trans (hr.free j (by simp; omega) hj)
    · obtain rfl : j = last + 2 ^ (k + 1) := by omega
      rw [Nat.add_mod_right]
      exact Function.update_self _ _ _
  threshold_ge := by
    show (-1 : ℤ) ≤ r.threshold - 1
    omega
  threshold_le := by
    have hle := hr.threshold_le
    show r.threshold - 1 ≤ 3 * 2 ^ k - 1
    omega
  armed := fun hne => absurd rfl hne

/-- **`try_dequeue` on an empty ring** returns nothing; unless the threshold is used
up it moves both tickets on by one. -/
theorem tryDequeue_nil (hk : k ≤ 61) (hr : Represents k h [] r) (fuel : ℕ) :
    ∃ r' h', r.tryDequeue (fuel + 1) = some (r', none) ∧ Represents k h' [] r' := by
  rw [tryDequeue]
  split
  · exact ⟨r, h, rfl, hr⟩
  · next harmed =>
      have hstarted := hr.started
      obtain ⟨last, rfl⟩ : ∃ last, h = last + 2 ^ (k + 1) := ⟨h - 2 ^ (k + 1), by omega⟩
      have hpos : 0 < 2 ^ (k + 1) := Nat.two_pow_pos _
      have hentry := hr.free last (by simp) (by omega)
      have hclaim := claimLoop_miss (r := { r with head := wordInc r.head }) hk hr.capacity hentry
        (catchupAttempts + 1) 0 (by omega) (by omega)
      have htail := hr.tail
      rw [List.length_nil, Nat.add_zero] at htail
      refine ⟨_, last + 2 ^ (k + 1) + 1, ?_, hr.moveOn (by omega)⟩
      rw [← hr.head] at hclaim
      rw [dequeueLoop]
      simp only [hclaim]
      simp only [htail, hr.head, wordInc_mod, beforeOrEqual_succ, if_true, catchUp]
      rw [hr.signedDec_threshold hk (by omega)]

end Represents

section Calls

/-- The calls of one client. -/
inductive Call
  /-- `enqueue(index, false)` -/
  | enqueue (index : ℕ)
  /-- `try_dequeue(false)` -/
  | tryDequeue
  deriving DecidableEq

/-- One call, with at most `tickets` tickets, and the index it returns. -/
def call (tickets : ℕ) (r : IndexRing) : Call → Option (IndexRing × Option ℕ)
  | .enqueue index => (r.enqueue index tickets).map fun r => (r, none)
  | .tryDequeue => r.tryDequeue tickets

/-- The calls one after the other, with what they return. -/
def calls (tickets : ℕ) (r : IndexRing) : List Call → Option (IndexRing × List (Option ℕ))
  | [] => some (r, [])
  | c :: cs =>
      match call tickets r c with
      | none => none
      | some (r, returned) => (calls tickets r cs).map fun p => (p.1, returned :: p.2)

/-- What a call does to a FIFO of indices. -/
def fifoCall (xs : List ℕ) : Call → List ℕ × Option ℕ
  | .enqueue index => (xs ++ [index], none)
  | .tryDequeue => (xs.tail, xs.head?)

/-- What a run of calls answers, on a list. -/
def fifoCalls (xs : List ℕ) : List Call → List ℕ × List (Option ℕ)
  | [] => (xs, [])
  | c :: cs =>
      ((fifoCalls (fifoCall xs c).1 cs).1, (fifoCall xs c).2 :: (fifoCalls (fifoCall xs c).1 cs).2)

/-- Only indices below the capacity are stored, at most `capacity` of them. -/
def Admits (capacity : ℕ) (xs : List ℕ) : List Call → Prop
  | [] => True
  | c :: cs =>
      (∀ index, c = .enqueue index → index < capacity ∧ xs.length < capacity) ∧
        Admits capacity (fifoCall xs c).1 cs

/-- The words of a ring that holds `xs`, read with the ring's own masks. -/
structure Decodes (capacity h : ℕ) (xs : List ℕ) (r : IndexRing) : Prop where
  head : r.head = h % wordSize
  tail : r.tail = (h + xs.length) % wordSize
  cycle : ∀ i x, xs[i]? = some x →
    r.entries (map capacity ((h + i) % wordSize)) ||| cycleMask capacity =
      ticketCycle capacity ((h + i) % wordSize)
  safe : ∀ i x, xs[i]? = some x →
    r.entries (map capacity ((h + i) % wordSize)) &&& ringSize capacity = ringSize capacity
  index : ∀ i x, xs[i]? = some x →
    r.entries (map capacity ((h + i) % wordSize)) &&& ringMask capacity = x
  /-- no index is mistaken for the empty mark -/
  marked : ∀ x ∈ xs, x < ringMask capacity
  threshold_ge : -1 ≤ r.threshold
  threshold_le : r.threshold ≤ 3 * capacity - 1
  armed : xs ≠ [] → r.threshold = 3 * capacity - 1

variable {k h : ℕ} {xs : List ℕ} {r : IndexRing}

/-- Every entry the ring makes is safe. -/
theorem entryWord_and_ringSize {tag index : ℕ} (hk : k ≤ 61) (hindex : index < 2 ^ (k + 1)) :
    entryWord k tag index &&& ringSize (2 ^ k) = ringSize (2 ^ k) := by
  -- a bit that an `or` leaves alone is set
  have hor : entryWord k tag index ||| ringSize (2 ^ k) = entryWord k tag index :=
    entryWord_or_ringSize hk hindex
  calc entryWord k tag index &&& ringSize (2 ^ k)
      = (entryWord k tag index ||| ringSize (2 ^ k)) &&& ringSize (2 ^ k) := by rw [hor]
    _ = ringSize (2 ^ k) := by
        apply Nat.eq_of_testBit_eq
        intro i
        rw [Nat.testBit_and, Nat.testBit_or]
        cases (ringSize (2 ^ k)).testBit i <;> simp

/-- The words of a ring, read as entries. -/
theorem Represents.decodes (hk : k ≤ 61) (hone : 1 ≤ k) (hr : Represents k h xs r) :
    Decodes (2 ^ k) h xs r := by
  have hpow : (2 : ℕ) ^ (k + 1) = 2 * 2 ^ k := by ring
  have hindex : ∀ (i x : ℕ), xs[i]? = some x → x < 2 ^ (k + 1) := by
    intro i x hx
    have hlt := hr.bounded x (List.mem_of_getElem? hx)
    omega
  have hentry : ∀ i x, xs[i]? = some x →
      r.entries (map (2 ^ k) ((h + i) % wordSize)) = entryWord k (tagOf k (h + i)) x := by
    intro i x hx
    rw [map_eq hk]
    exact hr.used i x hx
  refine ⟨hr.head, hr.tail, ?_, ?_, ?_, ?_, hr.threshold_ge, ?_, ?_⟩
  · intro i x hx
    rw [hentry i x hx, entryWord_or_cycleMask hk (hindex i x hx), ticketCycle_eq hk]
  · intro i x hx
    rw [hentry i x hx, entryWord_and_ringSize hk (hindex i x hx)]
  · intro i x hx
    rw [hentry i x hx, entryWord_and_ringMask hk (hindex i x hx)]
  · intro x hx
    have hlt := hr.bounded x hx
    have htwo : 2 ^ 1 ≤ 2 ^ k := Nat.pow_le_pow_right (by decide) hone
    rw [ringMask_eq hk]
    omega
  · have hle := hr.threshold_le
    push_cast
    exact hle
  · intro hne
    have harmed := hr.armed hne
    push_cast
    exact harmed

/-- **One call**: it returns within its first ticket what the FIFO returns. -/
theorem Represents.call (hk : k ≤ 61) (hr : Represents k h xs r) (tickets : ℕ) (c : Call)
    (hc : ∀ index, c = .enqueue index → index < 2 ^ k ∧ xs.length < 2 ^ k) :
    ∃ r' h', r.call (tickets + 1) c = some (r', (fifoCall xs c).2) ∧
      Represents k h' (fifoCall xs c).1 r' := by
  cases c with
  | enqueue index =>
      obtain ⟨hlt, hroom⟩ := hc index rfl
      obtain ⟨r', henqueue, hr'⟩ := hr.enqueue hk hlt hroom tickets
      refine ⟨r', h, ?_, hr'⟩
      rw [IndexRing.call, henqueue]
      rfl
  | tryDequeue =>
      cases xs with
      | nil => exact hr.tryDequeue_nil hk tickets
      | cons x xs =>
          obtain ⟨r', hdequeue, hr'⟩ := hr.tryDequeue_cons hk tickets
          exact ⟨r', h + 1, hdequeue, hr'⟩

/-- **Any number of calls.** -/
theorem Represents.calls (hk : k ≤ 61) (tickets : ℕ) :
    ∀ cs {h xs r}, Represents k h xs r → Admits (2 ^ k) xs cs →
      ∃ r' h', r.calls (tickets + 1) cs = some (r', (fifoCalls xs cs).2) ∧
        Represents k h' (fifoCalls xs cs).1 r' := by
  intro cs
  induction cs with
  | nil =>
      intro h xs r hr hadmits
      exact ⟨r, h, rfl, hr⟩
  | cons c cs ih =>
      intro h xs r hr hadmits
      obtain ⟨hc, hcs⟩ := hadmits
      obtain ⟨mid, hmid, hcall, hrmid⟩ := hr.call hk tickets c hc
      obtain ⟨r', h', hcalls, hr'⟩ := ih hrmid hcs
      refine ⟨r', h', ?_, hr'⟩
      rw [IndexRing.calls, hcall]
      simp only [hcalls, Option.map_some]
      rfl

/-- The capacities that `validate_capacity` lets through. -/
theorem exponent_le {capacity : ℕ} (hmax : capacity ≤ (2 ^ 63 - 1) / 3) (hpow : capacity = 2 ^ k) :
    k ≤ 61 := by
  by_contra hlarge
  have hle : 2 ^ 62 ≤ 2 ^ k := Nat.pow_le_pow_right (by decide) (by omega)
  omega

/-- **The index ring is an exact FIFO.**  From either initial state every sequence of
calls that stores at most `capacity` indices returns what a FIFO of indices returns,
each call within its first ticket, however often the tickets and their tags wrap. -/
theorem exact_fifo {capacity : ℕ} (hpow : capacity.isPowerOfTwo) (htwo : 2 ≤ capacity)
    (hmax : capacity ≤ (2 ^ 63 - 1) / 3) :
    (ringSize capacity = 2 * capacity ∧ ringMask capacity = 2 * capacity - 1 ∧
      cycleMask capacity = 4 * capacity - 1 ∧ initialThreshold capacity = 3 * capacity - 1) ∧
    ∀ xs r, (xs = [] ∧ r = initializeEmpty capacity) ∨
        (xs = List.range capacity ∧ r = initializeFull capacity) →
      ∀ cs, Admits capacity xs cs → ∀ tickets, 0 < tickets →
        ∃ r' h', r.calls tickets cs = some (r', (fifoCalls xs cs).2) ∧
          Decodes capacity h' (fifoCalls xs cs).1 r' := by
  obtain ⟨k, rfl⟩ := hpow
  have hk : k ≤ 61 := exponent_le hmax rfl
  have hone : 1 ≤ k := by
    by_contra hzero
    obtain rfl : k = 0 := by omega
    omega
  constructor
  · refine ⟨?_, ?_, ?_, ?_⟩
    · rw [ringSize_eq hk]
      ring
    · rw [ringMask_eq hk, pow_succ, Nat.mul_comm]
    · rw [cycleMask_eq hk, pow_add, Nat.mul_comm]
      rfl
    · rw [initialThreshold_eq hk]
      push_cast
      rfl
  · intro xs r hstart cs hadmits tickets htickets
    obtain ⟨extra, rfl⟩ : ∃ extra, tickets = extra + 1 := ⟨tickets - 1, by omega⟩
    have hr : Represents k wordSize xs r := by
      obtain ⟨rfl, rfl⟩ | ⟨rfl, rfl⟩ := hstart
      · exact Represents.initializeEmpty hk
      · exact Represents.initializeFull hk
    obtain ⟨r', h', hcalls, hr'⟩ := Represents.calls hk extra cs hr hadmits
    exact ⟨r', h', hcalls, hr'.decodes hk hone⟩

/-- A full ring of two, emptied past its end and used again. -/
theorem exact_fifo_two :
    ∃ r' h', (initializeFull 2).calls 1 [.tryDequeue, .tryDequeue, .tryDequeue, .enqueue 1] =
        some (r', [some 0, some 1, none, none]) ∧ Decodes 2 h' [1] r' := by
  have hadmits : Admits 2 (List.range 2) [.tryDequeue, .tryDequeue, .tryDequeue, .enqueue 1] := by
    simp [Admits, fifoCall, List.range_succ]
  exact (exact_fifo ⟨1, rfl⟩ le_rfl (by decide)).2 _ _ (.inr ⟨rfl, rfl⟩) _ hadmits 1 one_pos

end Calls

end IndexRing

end EventDispatcher
