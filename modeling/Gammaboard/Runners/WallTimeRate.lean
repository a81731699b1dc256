import Gammaboard.Lib.SpreadWindow
import Mathlib.Algebra.Order.Field.Basic
import Mathlib.Algebra.Order.Field.Rat
import Mathlib.Data.List.Induction
import Mathlib.Tactic.NormNum

/-!
# The rate over the last minute

An observation spreads its value over the time since the observation before and
takes what is older than a minute from the front of the deque. Times are in
nanoseconds; the values are exact.
-/

namespace Gammaboard.Runners

open Gammaboard.Lib

def nanosPerSecond : Nat := 10 ^ 9

/-- A duration holds its seconds in 64 bits. -/
def durationLimit : Nat := 2 ^ 64 * nanosPerSecond

/-- The nanoseconds since the first instant of the clock; the time between two instants is a
duration. -/
structure Instant where
  nanos : Nat
  isLt : nanos < durationLimit

inductive RateError where
  /-- `overflow when adding durations` -/
  | durationOverflow
  /-- `nonempty rate window` -/
  | emptyWindow
deriving DecidableEq, Repr

/-- Both are panics. -/
def addDuration (left right : Nat) : Except RateError Nat :=
  if left + right < durationLimit then .ok (left + right) else .error .durationOverflow

structure WallTimeRate (K : Type) where
  lastObservedAt : Instant
  intervals : List (Nat × K)
  elapsed : Nat

namespace WallTimeRate

variable {K : Type} [Field K]

def window : Nat := 60 * nanosPerSecond

def asSecs (duration : Nat) : K := (duration : K) / (nanosPerSecond : K)

def new (now : Instant) : WallTimeRate K := { lastObservedAt := now, intervals := [], elapsed := 0 }

/-- The `while` of `observe`. -/
def expireLoop (elapsed : Nat) (intervals : List (Nat × K)) :
    Except RateError (Nat × List (Nat × K)) :=
  if window < elapsed then
    match intervals with
    | [] => .error .emptyWindow
    | (seconds, value) :: rest =>
      if seconds ≤ elapsed - window then expireLoop (elapsed - seconds) rest
      else
        let retained := seconds - (elapsed - window)
        expireLoop window ((retained, value * asSecs retained / asSecs seconds) :: rest)
  else .ok (elapsed, intervals)
termination_by (elapsed, intervals.length)
decreasing_by
  · rw [Prod.lex_def]
    by_cases hempty : seconds = 0
    · exact .inr ⟨by omega, Nat.lt_succ_self _⟩
    · exact .inl (by dsimp only; omega)
  · rw [Prod.lex_def]
    exact .inl (by assumption)

def rate (state : WallTimeRate K) : K :=
  if state.elapsed ≠ 0 then (state.intervals.map (·.2)).sum / asSecs state.elapsed else 0

variable [LinearOrder K]

/-- No value stands for one that is not finite. -/
def counted : Option K → K
  | none => 0
  | some value => max value 0

/-- `duration_since` is zero for an earlier instant. -/
def observe (state : WallTimeRate K) (now : Instant) (value : Option K) :
    Except RateError (WallTimeRate K × K) := do
  let interval := now.nanos - state.lastObservedAt.nanos
  let elapsed ← addDuration state.elapsed interval
  let kept ← expireLoop elapsed (state.intervals ++ [(interval, counted value)])
  let next := { lastObservedAt := now, intervals := kept.2, elapsed := kept.1 }
  pure (next, next.rate)

/-- The state after some observations. -/
def observeAll (start : Instant) (observations : List (Instant × Option K)) :
    Except RateError (WallTimeRate K) :=
  observations.foldlM (fun state observation =>
    (state.observe observation.1 observation.2).map (·.1)) (new start)

/-! ## One observation -/

omit [LinearOrder K] in
theorem ratio_asSecs [CharZero K] (part whole : Nat) (value : K) :
    value * asSecs part / asSecs whole = value * (part : K) / (whole : K) := by
  have hnanos : ((nanosPerSecond : Nat) : K) ≠ 0 := Nat.cast_ne_zero.2 (by decide)
  unfold asSecs
  rw [mul_div_assoc, div_div_div_cancel_right₀ hnanos, mul_div_assoc]

omit [LinearOrder K] in
/-- The loop ends with what lies in the window. -/
theorem expireLoop_eq [CharZero K] {elapsed : Nat} {intervals : List (Nat × K)}
    (h : elapsed = totalTime intervals) :
    expireLoop elapsed intervals =
      .ok (min window elapsed, expire (elapsed - window) intervals) := by
  fun_induction expireLoop elapsed intervals with
  | case1 elapsed hlt =>
    have hnone : totalTime ([] : List (Nat × K)) = 0 := rfl
    omega
  | case2 elapsed hlt seconds value rest hle ih =>
    rw [totalTime_cons] at h
    rw [ih (by omega), expire, if_neg (show elapsed - window ≠ 0 by omega), if_pos hle,
      Nat.min_eq_left (by omega), Nat.min_eq_left (by omega), Nat.sub_right_comm]
  | case3 elapsed hlt seconds value rest hle retained ih =>
    rw [totalTime_cons] at h
    have htotal : window = totalTime ((retained, value * asSecs retained / asSecs seconds) :: rest) := by
      rw [totalTime_cons]
      dsimp only [retained] at h ⊢
      omega
    rw [ih htotal, Nat.sub_self, expire_zero, expire, if_neg (show elapsed - window ≠ 0 by omega),
      if_neg hle, Nat.min_self, Nat.min_eq_left (by omega), ratio_asSecs]
  | case4 elapsed intervals hle =>
    rw [Nat.min_eq_right (by omega), Nat.sub_eq_zero_of_le (by omega), expire_zero]

/-! ## A run -/

/-- The instants and the values that count. -/
def history (observations : List (Instant × Option K)) : List (Nat × K) :=
  observations.map fun observation => (observation.1.nanos, counted observation.2)

/-- The amount of a history in the window that ends now, over the smaller of the window and the
time since the start. -/
def windowRate (start now : Nat) (observed : List (Nat × K)) : K :=
  amountAfter (now - window) start (gaps start observed) / asSecs (min window (now - start))

/-- The state holds the window of what was observed. -/
structure Holds (start : Nat) (observed : List (Nat × K)) (state : WallTimeRate K) : Prop where
  last : state.lastObservedAt.nanos = (observed.map (·.1)).getLastD start
  elapsed : state.elapsed = min window (totalTime (gaps start observed))
  intervals : state.intervals =
    expire (totalTime (gaps start observed) - window) (gaps start observed)

omit [LinearOrder K] in
theorem Holds.totalTime_intervals {start : Nat} {observed : List (Nat × K)}
    {state : WallTimeRate K} (hstate : Holds start observed state) :
    totalTime state.intervals = state.elapsed := by
  rw [hstate.intervals, totalTime_expire (by omega), hstate.elapsed]
  omega

omit [LinearOrder K] in
theorem holds_new (start : Instant) : Holds start.nanos [] (new start : WallTimeRate K) :=
  ⟨rfl, (Nat.min_zero _).symm, rfl⟩

omit [LinearOrder K] in
theorem Holds.rate [CharZero K] {start : Nat} {observed : List (Nat × K)} {state : WallTimeRate K}
    (hstate : Holds start observed state)
    (hsorted : (start :: observed.map (·.1)).Pairwise (· ≤ ·)) :
    state.rate = windowRate start state.lastObservedAt.nanos observed := by
  have hlast : start + totalTime (gaps start observed) = state.lastObservedAt.nanos := by
    rw [add_totalTime_gaps hsorted, hstate.last]
  have hcut : totalTime (gaps start observed) - window =
      state.lastObservedAt.nanos - window - start := by omega
  have hsum : (state.intervals.map (·.2)).sum =
      amountAfter (state.lastObservedAt.nanos - window) start (gaps start observed) := by
    rw [hstate.intervals, hcut, ← totalAmount_expire]
    rfl
  have helapsed : state.elapsed = min window (state.lastObservedAt.nanos - start) := by
    rw [hstate.elapsed]
    omega
  unfold WallTimeRate.rate windowRate
  rw [hsum, ← helapsed]
  by_cases hzero : state.elapsed = 0
  · rw [if_neg (not_not.2 hzero), hzero, asSecs, Nat.cast_zero, zero_div, div_zero]
  · rw [if_pos hzero]

/-- One observation goes on with the window. -/
theorem Holds.observe [CharZero K] {start : Nat} {observed : List (Nat × K)}
    {state : WallTimeRate K} (hstate : Holds start observed state) (now : Instant)
    (value : Option K)
    (hsorted : (start :: (observed ++ [(now.nanos, counted value)]).map (·.1)).Pairwise (· ≤ ·)) :
    ∃ next : WallTimeRate K, state.observe now value = .ok (next, next.rate) ∧
      next.lastObservedAt = now ∧ Holds start (observed ++ [(now.nanos, counted value)]) next := by
  have hall : start + totalTime (gaps start (observed ++ [(now.nanos, counted value)])) = now.nanos := by
    rw [add_totalTime_gaps hsorted, List.map_append, List.map_singleton, List.getLastD_concat]
  have hnow := now.isLt
  rw [gaps_append, ← hstate.last, totalTime_append, totalTime_cons, ← Nat.add_assoc] at hall
  obtain ⟨interval, hgap⟩ : ∃ interval, interval = now.nanos - state.lastObservedAt.nanos := ⟨_, rfl⟩
  rw [← hgap] at hall
  have hinterval : totalTime [(interval, counted value)] = interval := rfl
  have helapsed := hstate.elapsed
  have hadd : addDuration state.elapsed interval = .ok (state.elapsed + interval) :=
    if_pos (by dsimp only at hall; omega)
  have hloop : expireLoop (state.elapsed + interval) (state.intervals ++ [(interval, counted value)]) =
      .ok (min window (state.elapsed + interval), expire (state.elapsed + interval - window)
        (state.intervals ++ [(interval, counted value)])) :=
    expireLoop_eq (by rw [totalTime_append, hinterval, hstate.totalTime_intervals])
  have hobserve : state.observe now value = .ok
      (let next : WallTimeRate K :=
        { lastObservedAt := now
          elapsed := min window (state.elapsed + interval)
          intervals := expire (state.elapsed + interval - window)
            (state.intervals ++ [(interval, counted value)]) }
       (next, next.rate)) := by
    simp only [WallTimeRate.observe, ← hgap, hadd, hloop, bind, Except.bind, pure, Except.pure]
  refine ⟨_, hobserve, rfl, ?_, ?_, ?_⟩
  · rw [List.map_append, List.map_singleton, List.getLastD_concat]
  · rw [gaps_append, ← hstate.last, ← hgap, totalTime_append, hinterval]
    dsimp only
    omega
  · rw [gaps_append, ← hstate.last, ← hgap, totalTime_append, hinterval]
    dsimp only
    rw [hstate.intervals, expire_append (by omega),
      show totalTime (gaps start observed) - window + (state.elapsed + interval - window) =
        totalTime (gaps start observed) + interval - window by omega]

/-- Every observation of a run goes on with the window. -/
theorem observeAll_holds [CharZero K] (start : Instant)
    (observations : List (Instant × Option K))
    (hsorted : (start.nanos :: (history observations).map (·.1)).Pairwise (· ≤ ·)) :
    ∃ state : WallTimeRate K, observeAll start observations = .ok state ∧
      Holds start.nanos (history observations) state := by
  induction observations using List.reverseRecOn with
  | nil => exact ⟨new start, rfl, holds_new start⟩
  | append_singleton observations observation ih =>
    have hhistory : history (observations ++ [observation]) =
        history observations ++ [(observation.1.nanos, counted observation.2)] := List.map_append
    rw [hhistory] at hsorted ⊢
    have hbefore : (start.nanos :: (history observations).map (·.1)).Pairwise (· ≤ ·) := by
      rw [List.map_append, ← List.cons_append] at hsorted
      exact (List.pairwise_append.1 hsorted).1
    obtain ⟨state, hrun, hstate⟩ := ih hbefore
    obtain ⟨next, hobserve, -, hnext⟩ := hstate.observe observation.1 observation.2 hsorted
    refine ⟨next, ?_, hnext⟩
    unfold observeAll at hrun ⊢
    rw [List.foldlM_append, hrun]
    exact congrArg (fun observed => (observed.map (·.1)).bind pure) hobserve

/-! ## Main result -/

theorem counted_some {value : K} (h : 0 ≤ value) : counted (some value) = value :=
  max_eq_left h

theorem observe_rate [CharZero K] (start : Instant) (observations : List (Instant × K))
    (now : Instant) (value : K)
    (hnonneg : ∀ observation ∈ observations ++ [(now, value)], 0 ≤ observation.2)
    (hsorted : (start.nanos :: (observations ++ [(now, value)]).map (·.1.nanos)).Pairwise (· ≤ ·)) :
    ∃ state next : WallTimeRate K,
      observeAll start (observations.map fun observation => (observation.1, some observation.2)) =
        .ok state ∧
      state.observe now (some value) = .ok (next, windowRate start.nanos now.nanos
        ((observations ++ [(now, value)]).map fun observation =>
          (observation.1.nanos, observation.2))) := by
  have hcounted (observed : List (Instant × K)) (h : ∀ observation ∈ observed, 0 ≤ observation.2) :
      history (observed.map fun observation => (observation.1, some observation.2)) =
        observed.map fun observation => (observation.1.nanos, observation.2) := by
    unfold history
    rw [List.map_map]
    exact List.map_congr_left fun observation hmem =>
      congrArg (Prod.mk observation.1.nanos) (counted_some (h observation hmem))
  have hhistory := hcounted observations fun observation hmem =>
    hnonneg observation (List.mem_append_left _ hmem)
  have hvalue : counted (some value) = value :=
    counted_some (hnonneg (now, value) (List.mem_append_right _ List.mem_cons_self))
  have htimes : ((observations ++ [(now, value)]).map fun observation =>
      (observation.1.nanos, observation.2)).map (·.1) =
        (observations ++ [(now, value)]).map (·.1.nanos) := List.map_map
  have hbefore : (start.nanos :: (history (observations.map fun observation =>
      (observation.1, some observation.2))).map (·.1)).Pairwise (· ≤ ·) := by
    rw [hhistory, List.map_map]
    rw [List.map_append, ← List.cons_append] at hsorted
    exact (List.pairwise_append.1 hsorted).1
  obtain ⟨state, hrun, hstate⟩ := observeAll_holds start _ hbefore
  rw [hhistory] at hstate
  have hobserved : (observations.map fun observation => (observation.1.nanos, observation.2)) ++
      [(now.nanos, counted (some value))] =
        (observations ++ [(now, value)]).map fun observation =>
          (observation.1.nanos, observation.2) := by
    rw [hvalue, List.map_append, List.map_singleton]
  have hafter : (start.nanos :: ((observations.map fun observation =>
      (observation.1.nanos, observation.2)) ++
        [(now.nanos, counted (some value))]).map (·.1)).Pairwise (· ≤ ·) := by
    rw [hobserved, htimes]
    exact hsorted
  obtain ⟨next, hobserve, hnow, hnext⟩ := hstate.observe now (some value) hafter
  refine ⟨state, next, hrun, ?_⟩
  rw [hobserve, hnext.rate hafter, hnow, hobserved]

/-- The instant so many seconds after the first. -/
def atSecond (seconds : Nat) (h : seconds < 2 ^ 64) : Instant :=
  ⟨seconds * nanosPerSecond, Nat.mul_lt_mul_of_pos_right h (by decide)⟩

/-- Half of a batch of two minutes has left the window thirty seconds later. -/
theorem observe_rate_long_batch :
    ∃ state next : WallTimeRate ℚ,
      observeAll (atSecond 0 (by decide)) [(atSecond 120 (by decide), some 60000)] = .ok state ∧
      state.observe (atSecond 150 (by decide)) (some 0) = .ok (next, 250) := by
  obtain ⟨state, next, hrun, hobserve⟩ := observe_rate (atSecond 0 (by decide))
    [(atSecond 120 (by decide), (60000 : ℚ))] (atSecond 150 (by decide)) 0
    (by norm_num) (by simp [atSecond]; decide)
  refine ⟨state, next, hrun, hobserve.trans ?_⟩
  have hrate : windowRate 0 (150 * nanosPerSecond)
      [(120 * nanosPerSecond, (60000 : ℚ)), (150 * nanosPerSecond, 0)] = 250 := by
    norm_num [windowRate, amountAfter, gaps, shareAfter, asSecs, window, nanosPerSecond]
  exact congrArg (fun rate => Except.ok (next, rate)) hrate

end WallTimeRate

end Gammaboard.Runners
