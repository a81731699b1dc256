import Mathlib.Algebra.Order.Ring.Int
import Mathlib.Data.List.Basic
import Mathlib.Tactic.Common

/-!
# Batch ids

`core/batch_ids.rs`: every process owns one generator. An id packs the last
wall-clock millisecond the generator has seen, the process entropy drawn once
per process and a counter within the millisecond. The last millisecond and the
counter follow a closed form of the clock readings (`slot`), which orders two
ids of different processes by the readings alone.
-/

namespace Gammaboard.Core

def batchIdCounterBits : Nat := 6
def batchIdProcessEntropyBits : Nat := 16
def batchIdSuffixBits : Nat := batchIdCounterBits + batchIdProcessEntropyBits
def batchIdCounterMask : UInt16 := ((1 : UInt16) <<< 6) - 1

/-- `u64::saturating_add(1)`. -/
def saturatingSucc (n : UInt64) : UInt64 := if n.toNat + 1 < 2 ^ 64 then n + 1 else n

theorem toNat_saturatingSucc (n : UInt64) :
    (saturatingSucc n).toNat = min (n.toNat + 1) (2 ^ 64 - 1) := by
  have hn := n.toNat_lt
  unfold saturatingSucc
  split
  · simp only [UInt64.toNat_add, UInt64.reduceToNat]
    omega
  · omega

structure BatchIdGenerator where
  lastMillis : UInt64
  counter : UInt16
  processEntropy : UInt16
  deriving DecidableEq, Repr

namespace BatchIdGenerator

/-- A fresh process; the entropy is the random draw. -/
def new (entropy : UInt16) : BatchIdGenerator := ⟨0, 0, entropy⟩

/-- Read the clock: advance to a later millisecond, or borrow the next one when the
current one has no counter left. -/
def observe (g : BatchIdGenerator) (nowMillis : UInt64) : BatchIdGenerator :=
  if g.lastMillis < nowMillis then { g with lastMillis := nowMillis, counter := 0 }
  else if batchIdCounterMask ≤ g.counter then
    { g with lastMillis := saturatingSucc g.lastMillis, counter := 0 }
  else g

/-- The 64-bit word of an id; `<<` on `i64` drops the bits shifted out. -/
def word (g : BatchIdGenerator) : BitVec 64 :=
  (g.lastMillis.toBitVec <<< batchIdSuffixBits)
    ||| (g.processEntropy.toBitVec.setWidth 64 <<< batchIdCounterBits)
    ||| g.counter.toBitVec.setWidth 64

/-- One turn of the loop of `next_ids`. -/
def nextId (g : BatchIdGenerator) (nowMillis : UInt64) : BatchIdGenerator × Int :=
  let g := g.observe nowMillis
  ({ g with counter := g.counter + 1 }, g.word.toInt)

/-- `next_ids`, one clock reading for each id. -/
def nextIds (g : BatchIdGenerator) : List UInt64 → BatchIdGenerator × List Int
  | [] => (g, [])
  | now :: clock =>
    let (g, id) := g.nextId now
    let (g, ids) := g.nextIds clock
    (g, id :: ids)

theorem nextIds_append (g : BatchIdGenerator) (xs ys : List UInt64) :
    g.nextIds (xs ++ ys) =
      ((((g.nextIds xs).1).nextIds ys).1, (g.nextIds xs).2 ++ (((g.nextIds xs).1).nextIds ys).2) := by
  induction xs generalizing g with
  | nil => simp [nextIds]
  | cons x xs ih => simp [nextIds, ih]

@[simp] theorem length_nextIds (g : BatchIdGenerator) (xs : List UInt64) :
    (g.nextIds xs).2.length = xs.length := by
  induction xs generalizing g with
  | nil => rfl
  | cons x xs ih => simp [nextIds, ih]

end BatchIdGenerator

/-! ## The closed form -/

/-- The next slot after `prev` at a clock reading: the first slot of the millisecond read,
or the slot after `prev` when the clock has not passed it. -/
def nextSlot (prev : Option Nat) (nowMillis : UInt64) : Nat :=
  match prev with
  | none => 63 * nowMillis.toNat
  | some s => max (63 * nowMillis.toNat) (s + 1)

/-- The slot of the last id allocated over the readings. A millisecond has 63 slots. -/
def lastSlot (prev : Option Nat) (clock : List UInt64) : Option Nat :=
  clock.foldl (fun prev now => some (nextSlot prev now)) prev

/-- The slots of the ids allocated over the readings. -/
def slots (prev : Option Nat) : List UInt64 → List Nat
  | [] => []
  | now :: clock => nextSlot prev now :: slots (some (nextSlot prev now)) clock

@[simp] theorem length_slots (prev : Option Nat) (clock : List UInt64) :
    (slots prev clock).length = clock.length := by
  induction clock generalizing prev with
  | nil => rfl
  | cons now clock ih => simp [slots, ih]

/-- Within one process the slots ascend, whatever the clock does. -/
theorem slots_ascend (prev : Option Nat) (clock : List UInt64) :
    (slots prev clock).Pairwise (· < ·) ∧ ∀ s ∈ slots prev clock, ∀ p, prev = some p → p < s := by
  induction clock generalizing prev with
  | nil => exact ⟨.nil, by simp [slots]⟩
  | cons now clock ih =>
    obtain ⟨hpair, habove⟩ := ih (some (nextSlot prev now))
    have hhead : ∀ p, prev = some p → p < nextSlot prev now := by
      rintro p rfl
      simp only [nextSlot]
      omega
    refine ⟨List.pairwise_cons.2 ⟨fun s hs => habove s hs _ rfl, hpair⟩, ?_⟩
    intro s hs p hp
    rcases List.mem_cons.1 hs with rfl | hs
    · exact hhead p hp
    · exact (hhead p hp).trans (habove s hs _ rfl)

/-- The millisecond of a slot; it saturates at the largest `u64`. -/
def slotMillis (s : Nat) : Nat := min (s / 63) 18446744073709551615

/-- The millisecond field of an id as `i64` reads it back: 42 bits, signed. -/
def signedMillis (m : Nat) : Int :=
  if m % 2 ^ 42 < 2 ^ 41 then (m % 2 ^ 42 : Nat) else (m % 2 ^ 42 : Nat) - 2 ^ 42

/-- The id of a slot in a process. -/
def slotId (entropy : UInt16) (s : Nat) : Int :=
  signedMillis (slotMillis s) * 2 ^ 22 + entropy.toNat * 2 ^ 6 + (s % 63 : Nat)

namespace BatchIdGenerator

/-- The generator has just allocated slot `prev`, or none. -/
def At (g : BatchIdGenerator) : Option Nat → Prop
  | none => g.lastMillis = 0 ∧ g.counter = 0
  | some s => g.lastMillis.toNat = slotMillis s ∧ g.counter.toNat = s % 63 + 1

theorem at_new (entropy : UInt16) : (new entropy).At none := ⟨rfl, rfl⟩

/-- Reading the clock puts the generator on the next slot. -/
theorem At.observe {g : BatchIdGenerator} {prev : Option Nat} (h : g.At prev) (now : UInt64) :
    (g.observe now).lastMillis.toNat = slotMillis (nextSlot prev now) ∧
      (g.observe now).counter.toNat = nextSlot prev now % 63 := by
  have hnow := now.toNat_lt
  have hmask : batchIdCounterMask.toNat = 63 := rfl
  cases prev with
  | none =>
    obtain ⟨hm, hc⟩ := h
    have hcounter : ¬ batchIdCounterMask ≤ g.counter := by rw [hc]; decide
    simp only [BatchIdGenerator.observe, if_neg hcounter, nextSlot, slotMillis]
    split
    · simp only [UInt16.toNat_zero]
      omega
    · rename_i hpast
      rw [hm, UInt64.lt_iff_toNat_lt, UInt64.toNat_zero] at hpast
      rw [hm, hc, UInt64.toNat_zero, UInt16.toNat_zero]
      omega
  | some s =>
    obtain ⟨hm, hc⟩ := h
    simp only [BatchIdGenerator.observe, nextSlot, slotMillis]
    rw [slotMillis] at hm
    split
    · -- the clock has passed the slot's millisecond
      rename_i hpast
      rw [UInt64.lt_iff_toNat_lt] at hpast
      rw [max_eq_left (by omega)]
      simp only [UInt16.toNat_zero]
      omega
    · rename_i hpast
      rw [UInt64.lt_iff_toNat_lt] at hpast
      rw [max_eq_right (by omega)]
      split
      · rename_i hfull
        rw [UInt16.le_iff_toNat_le, hmask] at hfull
        simp only [toNat_saturatingSucc, UInt16.toNat_zero]
        omega
      · rename_i hfull
        rw [UInt16.le_iff_toNat_le, hmask] at hfull
        omega

theorem observe_processEntropy (g : BatchIdGenerator) (now : UInt64) :
    (g.observe now).processEntropy = g.processEntropy := by
  unfold BatchIdGenerator.observe
  split
  · rfl
  · split <;> rfl

theorem word_toNat (g : BatchIdGenerator) (hc : g.counter.toNat < 2 ^ 6) :
    g.word.toNat =
      (g.lastMillis.toNat % 2 ^ 42) * 2 ^ 22 + (g.processEntropy.toNat * 2 ^ 6 + g.counter.toNat) := by
  have he := g.processEntropy.toNat_lt
  have hm : (g.lastMillis.toNat <<< batchIdSuffixBits) % 2 ^ 64
      = (g.lastMillis.toNat % 2 ^ 42) <<< batchIdSuffixBits := by
    simp only [batchIdSuffixBits, batchIdCounterBits, batchIdProcessEntropyBits,
      Nat.shiftLeft_eq]
    omega
  have hp : ((g.processEntropy.toNat % 2 ^ 64) <<< batchIdCounterBits) % 2 ^ 64
      = g.processEntropy.toNat <<< batchIdCounterBits := by
    simp only [batchIdCounterBits, Nat.shiftLeft_eq]
    omega
  have hk : g.counter.toNat % 2 ^ 64 = g.counter.toNat := by omega
  simp only [word, BitVec.toNat_or, BitVec.toNat_shiftLeft, BitVec.toNat_setWidth,
    UInt64.toNat_toBitVec, UInt16.toNat_toBitVec, hm, hp, hk, Nat.or_assoc]
  have hlow : g.counter.toNat < 2 ^ batchIdCounterBits := hc
  rw [← Nat.shiftLeft_add_eq_or_of_lt hlow, ← Nat.shiftLeft_add_eq_or_of_lt]
  · simp only [batchIdSuffixBits, batchIdCounterBits, batchIdProcessEntropyBits,
      Nat.shiftLeft_eq]
  · simp only [batchIdSuffixBits, batchIdCounterBits, batchIdProcessEntropyBits,
      Nat.shiftLeft_eq]
    omega

/-- The id read back as a signed 64-bit integer. -/
theorem word_toInt (g : BatchIdGenerator) (hc : g.counter.toNat < 2 ^ 6) :
    g.word.toInt =
      signedMillis g.lastMillis.toNat * 2 ^ 22 + g.processEntropy.toNat * 2 ^ 6
        + g.counter.toNat := by
  have he := g.processEntropy.toNat_lt
  rw [BitVec.toInt_eq_toNat_cond, word_toNat g hc, signedMillis]
  split <;> split <;> omega

theorem At.nextId {g : BatchIdGenerator} {prev : Option Nat} (h : g.At prev) (now : UInt64) :
    (g.nextId now).2 = slotId g.processEntropy (nextSlot prev now) ∧
      (g.nextId now).1.At (some (nextSlot prev now)) ∧
      (g.nextId now).1.processEntropy = g.processEntropy := by
  obtain ⟨hm, hc⟩ := h.observe now
  have hp := g.observe_processEntropy now
  have hlt : (g.observe now).counter.toNat < 2 ^ 6 := by omega
  refine ⟨?_, ?_, hp⟩
  · simp only [BatchIdGenerator.nextId, word_toInt _ hlt, hm, hc, hp, slotId]
  · simp only [BatchIdGenerator.nextId, At, UInt16.toNat_add, UInt16.toNat_one, hm, true_and]
    omega

/-- The ids of a process are the ids of its slots. -/
theorem At.nextIds {g : BatchIdGenerator} {prev : Option Nat} (h : g.At prev)
    (clock : List UInt64) :
    (g.nextIds clock).2 = (slots prev clock).map (slotId g.processEntropy) ∧
      (g.nextIds clock).1.At (lastSlot prev clock) ∧
      (g.nextIds clock).1.processEntropy = g.processEntropy := by
  induction clock generalizing g prev with
  | nil => exact ⟨rfl, h, rfl⟩
  | cons now clock ih =>
    obtain ⟨hid, hat, hp⟩ := h.nextId now
    obtain ⟨hids, hend, hp'⟩ := ih hat
    refine ⟨?_, hend, hp'.trans hp⟩
    rw [hp] at hids
    simp only [BatchIdGenerator.nextIds, hid, hids, slots, List.map_cons]

end BatchIdGenerator

/-! ## Ids of one process

As long as the millisecond stays below `2 ^ 41` (the year 2039) an id is its fields read as a
number, and the generator never goes back below what it has allocated.
-/

namespace BatchIdGenerator

/-- The millisecond still fits the id as a nonnegative number. -/
def InRange (g : BatchIdGenerator) : Prop := g.lastMillis.toNat < 2 ^ 41

instance (g : BatchIdGenerator) : Decidable g.InRange := inferInstanceAs (Decidable (_ < _))

/-- The counter never passes its mask. -/
def Wf (g : BatchIdGenerator) : Prop := g.counter.toNat ≤ 63

/-- No later id is below this one. -/
def floor (g : BatchIdGenerator) : Int :=
  g.lastMillis.toNat * 2 ^ 22 + g.processEntropy.toNat * 2 ^ 6 + g.counter.toNat

theorem wf_new (entropy : UInt16) : (new entropy).Wf := by simp [Wf, new]

theorem floor_nonneg (g : BatchIdGenerator) : 0 ≤ g.floor := by unfold floor; omega

theorem lastMillis_le_observe (g : BatchIdGenerator) (now : UInt64) :
    g.lastMillis.toNat ≤ (g.observe now).lastMillis.toNat := by
  have := g.lastMillis.toNat_lt
  unfold observe
  split
  · rename_i h
    exact (UInt64.lt_iff_toNat_lt.1 h).le
  · split
    · simp only [toNat_saturatingSucc]
      omega
    · exact le_rfl

/-- Reading the clock never lowers the floor and leaves a counter to use. -/
theorem floor_le_observe {g : BatchIdGenerator} (hg : g.Wf) (now : UInt64)
    (hr : (g.observe now).InRange) :
    g.floor ≤ (g.observe now).floor ∧ (g.observe now).counter.toNat ≤ 62 := by
  have hmask : batchIdCounterMask.toNat = 63 := rfl
  have he := g.processEntropy.toNat_lt
  unfold Wf at hg
  unfold observe InRange at *
  split at hr
  · rename_i h
    rw [if_pos h]
    rw [UInt64.lt_iff_toNat_lt] at h
    simp only [floor, UInt16.toNat_zero]
    omega
  · rename_i h
    rw [if_neg h]
    split at hr
    · rename_i hfull
      rw [if_pos hfull]
      simp only [floor, UInt16.toNat_zero, toNat_saturatingSucc] at hr ⊢
      omega
    · rename_i hfull
      rw [if_neg hfull]
      rw [UInt16.le_iff_toNat_le, hmask] at hfull
      omega

theorem nextId_bounds {g : BatchIdGenerator} (hg : g.Wf) (now : UInt64)
    (hr : (g.nextId now).1.InRange) :
    g.floor ≤ (g.nextId now).2 ∧ (g.nextId now).2 < (g.nextId now).1.floor ∧
      (g.nextId now).1.Wf := by
  obtain ⟨hle, hc⟩ := floor_le_observe hg now hr
  have hs : signedMillis (g.observe now).lastMillis.toNat = (g.observe now).lastMillis.toNat := by
    simp only [nextId, InRange] at hr
    rw [signedMillis, if_pos (by omega)]
    omega
  have hid : (g.nextId now).2 = (g.observe now).floor := by
    simp only [nextId, word_toInt _ (show (g.observe now).counter.toNat < 2 ^ 6 by omega), hs, floor]
  have hcounter : (g.nextId now).1.counter.toNat = (g.observe now).counter.toNat + 1 := by
    simp only [nextId, UInt16.toNat_add, UInt16.toNat_one]
    omega
  have hfloor : (g.nextId now).1.floor = (g.observe now).floor + 1 := by
    simp only [floor, hcounter]
    simp only [nextId]
    omega
  refine ⟨by omega, by omega, ?_⟩
  unfold Wf
  omega

theorem lastMillis_le_nextIds (g : BatchIdGenerator) (clock : List UInt64) :
    g.lastMillis.toNat ≤ (g.nextIds clock).1.lastMillis.toNat := by
  induction clock generalizing g with
  | nil => exact le_rfl
  | cons now clock ih => exact (g.lastMillis_le_observe now).trans (ih (g.nextId now).1)

/-- The ids of a call ascend, lie above the floor and push it above themselves. -/
theorem nextIds_bounds {g : BatchIdGenerator} (hg : g.Wf) (clock : List UInt64)
    (hr : (g.nextIds clock).1.InRange) :
    (g.nextIds clock).2.Pairwise (· < ·) ∧
      (∀ id ∈ (g.nextIds clock).2, g.floor ≤ id ∧ id < (g.nextIds clock).1.floor) ∧
      g.floor ≤ (g.nextIds clock).1.floor ∧ (g.nextIds clock).1.Wf := by
  induction clock generalizing g with
  | nil => exact ⟨.nil, by simp [nextIds], le_rfl, hg⟩
  | cons now clock ih =>
    have hr' : (g.nextId now).1.InRange :=
      lt_of_le_of_lt ((g.nextId now).1.lastMillis_le_nextIds clock) hr
    obtain ⟨hge, hlt, hwf⟩ := nextId_bounds hg now hr'
    obtain ⟨hpair, hmem, hfloor, hend⟩ := ih hwf hr
    have hmono := (hge.trans_lt hlt).le.trans hfloor
    refine ⟨List.pairwise_cons.2 ⟨fun id hid => ?_, hpair⟩, ?_, hmono, hend⟩
    · exact hlt.trans_le (hmem id hid).1
    · intro id hid
      rcases List.mem_cons.1 hid with rfl | hid
      · exact ⟨hge, hlt.trans_le hfloor⟩
      · exact ⟨(hge.trans_lt hlt).le.trans (hmem id hid).1, (hmem id hid).2⟩

end BatchIdGenerator

/-! ## Ids across a restore -/

/-- A call of `next_batch_ids` by a sampler queue: the ids of an insert bundle, or the
boundary a prefetch reserves. Each carries the clock readings of the call. -/
inductive IdCall where
  | bundle (clock : List UInt64)
  | boundary (now : UInt64)
  deriving DecidableEq, Repr

/-- The ids the calls give to batches. -/
def batchIds (g : BatchIdGenerator) : List IdCall → List Int
  | [] => []
  | .bundle clock :: calls => (g.nextIds clock).2 ++ batchIds (g.nextIds clock).1 calls
  | .boundary now :: calls => batchIds (g.nextIds [now]).1 calls

/-- The slots the calls give to batches. -/
def batchSlots (prev : Option Nat) : List IdCall → List Nat
  | [] => []
  | .bundle clock :: calls => slots prev clock ++ batchSlots (lastSlot prev clock) calls
  | .boundary now :: calls => batchSlots (lastSlot prev [now]) calls

/-- The process that writes the checkpoint: its entropy, the clock readings of its
allocations and which of them is the last id produced when it saves. -/
structure SavingProcess where
  entropy : UInt16
  clock : List UInt64
  last : Fin clock.length

/-- The process that restores: its entropy, the clock readings of what it allocated before
the restore and the calls its queue makes after it. -/
structure RestoringProcess where
  entropy : UInt16
  before : List UInt64
  after : List IdCall

/-- `last_produced_batch_id` of the checkpoint. -/
def SavingProcess.lastProducedBatchId (p : SavingProcess) : Int :=
  ((BatchIdGenerator.new p.entropy).nextIds p.clock).2.get (p.last.cast (by simp))

/-- The slot of `last_produced_batch_id`, from the clock readings alone. -/
def SavingProcess.lastProducedSlot (p : SavingProcess) : Nat :=
  (slots none p.clock).get (p.last.cast (by simp))

/-- The batch ids allocated after the restore. -/
def RestoringProcess.batchIds (p : RestoringProcess) : List Int :=
  Core.batchIds ((BatchIdGenerator.new p.entropy).nextIds p.before).1 p.after

/-- The slots of the batch ids allocated after the restore, from the clock readings alone. -/
def RestoringProcess.batchSlots (p : RestoringProcess) : List Nat :=
  Core.batchSlots (lastSlot none p.before) p.after

/-- Slot `t` of a process with entropy `e'` orders after slot `s` of a process with entropy
`e`: by the signed millisecond, then the entropy, then the counter. -/
def SlotBefore (e : UInt16) (s : Nat) (e' : UInt16) (t : Nat) : Prop :=
  signedMillis (slotMillis s) < signedMillis (slotMillis t) ∨
    signedMillis (slotMillis s) = signedMillis (slotMillis t) ∧
      (e < e' ∨ e = e' ∧ s % 63 < t % 63)

instance (e : UInt16) (s : Nat) (e' : UInt16) (t : Nat) : Decidable (SlotBefore e s e' t) :=
  inferInstanceAs (Decidable (_ ∨ _))

theorem slotId_lt_iff (e : UInt16) (s : Nat) (e' : UInt16) (t : Nat) :
    slotId e s < slotId e' t ↔ SlotBefore e s e' t := by
  have he := e.toNat_lt
  have he' := e'.toNat_lt
  unfold slotId SlotBefore
  rw [UInt16.lt_iff_toNat_lt, ← UInt16.toNat_inj]
  omega

theorem BatchIdGenerator.At.batchIds {g : BatchIdGenerator} {prev : Option Nat} (h : g.At prev)
    (calls : List IdCall) :
    Core.batchIds g calls = (Core.batchSlots prev calls).map (slotId g.processEntropy) := by
  induction calls generalizing g prev with
  | nil => rfl
  | cons call calls ih =>
    cases call with
    | bundle clock =>
      obtain ⟨hids, hend, hp⟩ := h.nextIds clock
      simp only [Core.batchIds, Core.batchSlots, List.map_append, hids, ih hend, hp]
    | boundary now =>
      obtain ⟨-, hend, hp⟩ := h.nextIds [now]
      simp only [Core.batchIds, Core.batchSlots, ih hend, hp]

theorem SavingProcess.lastProducedBatchId_eq (p : SavingProcess) :
    p.lastProducedBatchId = slotId p.entropy p.lastProducedSlot := by
  obtain ⟨hids, -, -⟩ := (BatchIdGenerator.at_new p.entropy).nextIds p.clock
  simp only [lastProducedBatchId, lastProducedSlot, List.get_eq_getElem, hids, List.getElem_map]
  rfl

theorem RestoringProcess.batchIds_eq (p : RestoringProcess) :
    p.batchIds = p.batchSlots.map (slotId p.entropy) := by
  obtain ⟨-, hend, hp⟩ := (BatchIdGenerator.at_new p.entropy).nextIds p.before
  rw [batchIds, hend.batchIds, hp]
  rfl

/-- **Batch ids after a restore.** The checkpoint carries no clock state to the restoring
process, so its batches come after the checkpoint's last produced id exactly when the clock
readings put their slots after it. -/
theorem batchIds_above_lastProduced_iff (old : SavingProcess) (new : RestoringProcess) :
    (∀ id ∈ new.batchIds, old.lastProducedBatchId < id) ↔
      ∀ t ∈ new.batchSlots, SlotBefore old.entropy old.lastProducedSlot new.entropy t := by
  simp only [new.batchIds_eq, old.lastProducedBatchId_eq, List.forall_mem_map, slotId_lt_iff]

/-- A clock one second behind on the restoring node. -/
theorem batchIds_below_lastProduced :
    ¬ ∀ id ∈ (RestoringProcess.mk 7 [] [.bundle [1000]]).batchIds,
      (SavingProcess.mk 7 [2000] 0).lastProducedBatchId < id := by
  decide +kernel

end Gammaboard.Core
