import Gammaboard.Lib.Regrouping
import Mathlib.Algebra.Order.Ring.Nat

/-!
# Little-endian words

A number as bytes, the least one first, and a block of words of one size: the
words of the block are those it was put together from.
-/

namespace Gammaboard.Lib

/-- The low `width` bytes of a number. -/
def leBytes : Nat → Nat → List UInt8
  | 0, _ => []
  | width + 1, n => UInt8.ofNat n :: leBytes width (n / 256)

def leNat : List UInt8 → Nat
  | [] => 0
  | b :: bytes => b.toNat + 256 * leNat bytes

@[simp] theorem length_leBytes (width n : Nat) : (leBytes width n).length = width := by
  induction width generalizing n with
  | zero => rfl
  | succ width ih => rw [leBytes, List.length_cons, ih]

theorem leNat_lt (bytes : List UInt8) : leNat bytes < 256 ^ bytes.length := by
  induction bytes with
  | nil => exact Nat.one_pos
  | cons b bytes ih =>
    have hb : b.toNat < 256 := b.toNat_lt
    rw [leNat, List.length_cons, Nat.pow_succ]
    omega

theorem leNat_leBytes {width n : Nat} (h : n < 256 ^ width) : leNat (leBytes width n) = n := by
  induction width generalizing n with
  | zero =>
    rw [Nat.pow_zero] at h
    rw [leBytes, leNat]
    omega
  | succ width ih =>
    rw [Nat.pow_succ] at h
    have hrest : n / 256 < 256 ^ width := Nat.div_lt_of_lt_mul (by omega)
    have hfirst : (UInt8.ofNat n).toNat = n % 256 := UInt8.toNat_ofNat'
    rw [leBytes, leNat, ih hrest, hfirst]
    omega

theorem leBytes_leNat (bytes : List UInt8) : leBytes bytes.length (leNat bytes) = bytes := by
  induction bytes with
  | nil => rfl
  | cons b bytes ih =>
    have hb : b.toNat < 256 := b.toNat_lt
    have hrest : (b.toNat + 256 * leNat bytes) / 256 = leNat bytes := by omega
    have hfirst : UInt8.ofNat (b.toNat + 256 * leNat bytes) = b := by
      apply UInt8.toNat_inj.1
      rw [UInt8.toNat_ofNat']
      omega
    rw [leNat, List.length_cons, leBytes, hrest, hfirst, ih]

/-! ## Blocks of words -/

section Words

variable {α : Type} {width : Nat} {toBytes : α → List UInt8}

theorem length_words (hwidth : ∀ a, (toBytes a).length = width) (words : List α) :
    (words.flatMap toBytes).length = words.length * width := length_flatMap_const hwidth words

theorem chunksExact_cons {first : List UInt8} (rest : List UInt8) (hwidth : 0 < width)
    (hfirst : first.length = width) :
    chunksExact width (first ++ rest) = first :: chunksExact width rest := by
  have hcount : (first ++ rest).length / width = rest.length / width + 1 := by
    rw [List.length_append, hfirst, Nat.add_comm, Nat.add_div_right _ hwidth]
  unfold chunksExact
  rw [hcount, List.range_succ_eq_map, List.map_cons, List.map_map, Nat.zero_mul, List.drop_zero,
    List.take_left' hfirst]
  congr 1
  apply List.map_congr_left
  intro i _
  rw [Function.comp_apply, Nat.succ_mul, Nat.add_comm, ← List.drop_drop, List.drop_left' hfirst]

theorem length_of_mem_chunksExact {n : Nat} {block chunk : List UInt8} (h : block.length = n * width)
    (hchunk : chunk ∈ chunksExact width block) : chunk.length = width := by
  unfold chunksExact at hchunk
  obtain ⟨i, hi, rfl⟩ := List.mem_map.1 hchunk
  rw [List.mem_range] at hi
  have hle : (i + 1) * width ≤ block.length :=
    (Nat.mul_le_mul_right _ hi).trans (Nat.div_mul_le_self _ _)
  rw [Nat.succ_mul] at hle
  rw [List.length_take, List.length_drop]
  omega

/-- A block is read as the words it was put together from. -/
theorem chunksExact_words (hpos : 0 < width) (hwidth : ∀ a, (toBytes a).length = width)
    (words : List α) : chunksExact width (words.flatMap toBytes) = words.map toBytes := by
  induction words with
  | nil =>
    unfold chunksExact
    rw [List.flatMap_nil, List.length_nil, Nat.zero_div]
    rfl
  | cons a words ih =>
    rw [List.flatMap_cons, chunksExact_cons _ hpos (hwidth a), ih, List.map_cons]

/-- A block of whole words is put together from what is read of it. -/
theorem words_chunksExact {ofBytes : List UInt8 → α}
    (hpos : 0 < width) (hround : ∀ bytes, bytes.length = width → toBytes (ofBytes bytes) = bytes)
    {n : Nat} {block : List UInt8} (h : block.length = n * width) :
    ((chunksExact width block).map ofBytes).flatMap toBytes = block := by
  induction n generalizing block with
  | zero =>
    rw [Nat.zero_mul] at h
    rw [List.eq_nil_of_length_eq_zero h]
    unfold chunksExact
    rw [List.length_nil, Nat.zero_div]
    rfl
  | succ n ih =>
    rw [Nat.succ_mul] at h
    have hfirst : (block.take width).length = width := by
      rw [List.length_take]
      omega
    have hrest : (block.drop width).length = n * width := by
      rw [List.length_drop]
      omega
    have hread := chunksExact_cons (block.drop width) hpos hfirst
    rw [List.take_append_drop] at hread
    rw [hread, List.map_cons, List.flatMap_cons, ih hrest, hround _ hfirst,
      List.take_append_drop]

end Words

end Gammaboard.Lib
