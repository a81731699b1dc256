import Mathlib.Algebra.BigOperators.Group.List.Basic
import Mathlib.Algebra.Field.Basic
import Mathlib.Algebra.Order.Ring.Nat
import Mathlib.Data.Nat.Cast.Field
import Mathlib.Tactic.Common

/-!
# Amounts spread over time

A history is a list of pieces, each a duration and an amount that is spread
uniformly over it; the amount of an empty piece lies at its instant. `expire`
takes a time away from the front of a history: whole pieces, and the same part
of the duration and of the amount of the piece it ends in. Expiring goes on
where it stopped when more pieces are added, and what it leaves is the amount
after the cut.
-/

namespace Gammaboard.Lib

variable {K : Type} [Field K]

/-- The durations of all pieces. -/
def totalTime (pieces : List (Nat × K)) : Nat := (pieces.map (·.1)).sum

/-- The amounts of all pieces. -/
def totalAmount (pieces : List (Nat × K)) : K := (pieces.map (·.2)).sum

def expire : Nat → List (Nat × K) → List (Nat × K)
  | _, [] => []
  | excess, (duration, amount) :: pieces =>
    if excess = 0 then (duration, amount) :: pieces
    else if duration ≤ excess then expire (excess - duration) pieces
    else (duration - excess, amount * ((duration - excess : Nat) : K) / (duration : K)) :: pieces

/-- The part of an amount that lies after the cut, when it is spread from `start` to `stop`. -/
def shareAfter (cut start stop : Nat) (amount : K) : K :=
  if start = stop then if cut ≤ stop then amount else 0
  else amount * ((stop - max cut start : Nat) : K) / ((stop - start : Nat) : K)

/-- The amount after the cut, of pieces that follow each other from `start` on. -/
def amountAfter (cut : Nat) : Nat → List (Nat × K) → K
  | _, [] => 0
  | start, (duration, amount) :: pieces =>
    shareAfter cut start (start + duration) amount + amountAfter cut (start + duration) pieces

/-- The pieces between the times of a history: each amount belongs to the time since the one
before. -/
def gaps : Nat → List (Nat × K) → List (Nat × K)
  | _, [] => []
  | last, (now, amount) :: history => (now - last, amount) :: gaps now history

variable {pieces more : List (Nat × K)} {excess next : Nat}

@[simp] theorem expire_zero : expire 0 pieces = pieces := by
  cases pieces with
  | nil => rfl
  | cons piece pieces => exact if_pos rfl

omit [Field K] in
@[simp] theorem totalTime_cons (piece : Nat × K) :
    totalTime (piece :: pieces) = piece.1 + totalTime pieces := rfl

@[simp] theorem totalAmount_cons (piece : Nat × K) :
    totalAmount (piece :: pieces) = piece.2 + totalAmount pieces := rfl

omit [Field K] in
theorem totalTime_append : totalTime (pieces ++ more) = totalTime pieces + totalTime more := by
  unfold totalTime
  rw [List.map_append, List.sum_append]

theorem totalTime_expire (h : excess ≤ totalTime pieces) :
    totalTime (expire excess pieces) = totalTime pieces - excess := by
  induction pieces generalizing excess with
  | nil => exact (Nat.zero_sub excess).symm
  | cons piece pieces ih =>
    rw [totalTime_cons] at h
    unfold expire
    by_cases hzero : excess = 0
    · rw [if_pos hzero, hzero, Nat.sub_zero]
    · rw [if_neg hzero]
      by_cases hle : piece.1 ≤ excess
      · rw [if_pos hle, ih (by omega), totalTime_cons]
        omega
      · rw [if_neg hle, totalTime_cons, totalTime_cons]
        dsimp only
        omega

/-- Expiring goes on where it stopped. -/
theorem expire_append [CharZero K] (h : excess ≤ totalTime pieces) :
    expire next (expire excess pieces ++ more) = expire (excess + next) (pieces ++ more) := by
  induction pieces generalizing excess with
  | nil =>
    have hzero : excess = 0 := Nat.le_zero.1 h
    rw [hzero, Nat.zero_add]
    rfl
  | cons piece pieces ih =>
    rw [totalTime_cons] at h
    by_cases hzero : excess = 0
    · rw [hzero, expire_zero, Nat.zero_add]
    · rw [List.cons_append, expire, expire, if_neg hzero, if_neg (show excess + next ≠ 0 by omega)]
      by_cases hle : piece.1 ≤ excess
      · rw [if_pos hle, if_pos (show piece.1 ≤ excess + next by omega), ih (by omega)]
        congr 1
        omega
      · rw [if_neg hle, List.cons_append, expire]
        by_cases hnext : next = 0
        · rw [if_pos hnext, if_neg (show ¬ piece.1 ≤ excess + next by omega), hnext, Nat.add_zero]
        · rw [if_neg hnext]
          by_cases hall : piece.1 ≤ excess + next
          · rw [if_pos hall, if_pos (show piece.1 - excess ≤ next by omega)]
            congr 1
            omega
          · have hleft : ((piece.1 - excess : Nat) : K) ≠ 0 := Nat.cast_ne_zero.2 (by omega)
            rw [if_neg hall, if_neg (show ¬ piece.1 - excess ≤ next by omega), Nat.sub_sub]
            congr 2
            rw [mul_div_right_comm, div_right_comm, mul_div_cancel_right₀ _ hleft,
              div_mul_eq_mul_div]

/-- A cut before the start leaves every amount whole. -/
theorem amountAfter_of_le [CharZero K] {cut start : Nat} (h : cut ≤ start) :
    amountAfter cut start pieces = totalAmount pieces := by
  induction pieces generalizing start with
  | nil => rfl
  | cons piece pieces ih =>
    have hshare : shareAfter cut start (start + piece.1) piece.2 = piece.2 := by
      unfold shareAfter
      by_cases hempty : start = start + piece.1
      · rw [if_pos hempty, if_pos (by omega)]
      · have hduration : ((start + piece.1 - start : Nat) : K) ≠ 0 := Nat.cast_ne_zero.2 (by omega)
        rw [if_neg hempty, Nat.max_eq_right h, mul_div_cancel_right₀ _ hduration]
    rw [amountAfter, hshare, ih (by omega), totalAmount_cons]

/-- What expiring leaves is the amount after the cut. -/
theorem totalAmount_expire [CharZero K] {cut start : Nat} :
    totalAmount (expire (cut - start) pieces) = amountAfter cut start pieces := by
  induction pieces generalizing start with
  | nil => rfl
  | cons piece pieces ih =>
    by_cases hbefore : cut ≤ start
    · rw [Nat.sub_eq_zero_of_le hbefore, expire_zero, amountAfter_of_le hbefore]
    · rw [expire, if_neg (show cut - start ≠ 0 by omega), amountAfter]
      by_cases hall : piece.1 ≤ cut - start
      · have hshare : shareAfter cut start (start + piece.1) piece.2 = 0 := by
          unfold shareAfter
          by_cases hempty : start = start + piece.1
          · rw [if_pos hempty, if_neg (by omega)]
          · rw [if_neg hempty, show start + piece.1 - max cut start = 0 by omega, Nat.cast_zero,
              mul_zero, zero_div]
        rw [if_pos hall, hshare, zero_add, ← ih, Nat.sub_sub]
      · have hrest : amountAfter cut (start + piece.1) pieces = totalAmount pieces :=
          amountAfter_of_le (by omega)
        have hshare : shareAfter cut start (start + piece.1) piece.2 =
            piece.2 * ((piece.1 - (cut - start) : Nat) : K) / (piece.1 : K) := by
          unfold shareAfter
          rw [if_neg (show start ≠ start + piece.1 by omega),
            show start + piece.1 - max cut start = piece.1 - (cut - start) by omega,
            Nat.add_sub_cancel_left]
        rw [if_neg hall, hrest, hshare, totalAmount_cons]

omit [Field K] in
theorem gaps_append {start now : Nat} {history : List (Nat × K)} {amount : K} :
    gaps start (history ++ [(now, amount)]) =
      gaps start history ++ [(now - (history.map (·.1)).getLastD start, amount)] := by
  induction history generalizing start with
  | nil => rfl
  | cons first history ih =>
    rw [List.cons_append, gaps, ih, gaps, List.map_cons, List.getLastD_cons, List.cons_append]

omit [Field K] in
theorem add_totalTime_gaps {start : Nat} {history : List (Nat × K)}
    (h : (start :: history.map (·.1)).Pairwise (· ≤ ·)) :
    start + totalTime (gaps start history) = (history.map (·.1)).getLastD start := by
  induction history generalizing start with
  | nil => rfl
  | cons first history ih =>
    obtain ⟨hstart, htimes⟩ := List.pairwise_cons.1 h
    have hfirst : start ≤ first.1 := hstart first.1 List.mem_cons_self
    rw [gaps, totalTime_cons, List.map_cons, List.getLastD_cons, ← ih htimes]
    dsimp only
    omega

end Gammaboard.Lib
