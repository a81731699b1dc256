import Gammaboard.Core.Errors
import Gammaboard.Lib.Strides
import Gammaboard.Utils.FloatRounding

/-!
# The order of a raster

`permuted_raster_index` and `coprime_stride` of
`sampling/sampler_aggregator/raster.rs`: the points of a raster are drawn in
steps of a stride that is coprime to their number, the first such number from a
golden section of it on. The product of an index and the stride is a `usize`.
-/

namespace Gammaboard.Sampling

open Gammaboard.Core Gammaboard.Lib Gammaboard.Utils

inductive RasterError where
  /-- A product leaves `usize`. -/
  | overflow
  /-- The search for a stride does not end. -/
  | endless
  | engine (e : EngineError)

/-- `0.618_033_988_749_894_9_f64`, in units of `2 ^ -53`. -/
def phiMinusOne : Nat := 5566755282872656

/-- `(total_samples as f64 * phi_minus_one).floor() as usize` between `1` and the last index. -/
def firstCandidate (totalSamples : Nat) : Nat :=
  max 1 (min (totalSamples - 1)
    (roundMagnitude (roundMagnitude totalSamples * phiMinusOne) / 2 ^ 53))

/-- The loop of `coprime_stride`, for so many rounds. -/
def strideFrom (totalSamples : Nat) : Nat → Nat → Option Nat
  | 0, _ => none
  | rounds + 1, candidate =>
    if Nat.gcd candidate totalSamples = 1 then some candidate
    else
      strideFrom totalSamples rounds
        (if totalSamples ≤ candidate + 1 then 1 else candidate + 1)

def coprimeStride (totalSamples : Nat) : Option Nat :=
  if totalSamples ≤ 1 then some 1
  else strideFrom totalSamples totalSamples (firstCandidate totalSamples)

def permutedRasterIndex (index totalSamples stride : Nat) : Except RasterError Nat :=
  if totalSamples ≤ 1 then .ok (min index (totalSamples - 1))
  else if index * stride < 2 ^ 64 then .ok (index * stride % totalSamples)
  else .error .overflow

/-! ## The stride -/

variable {total : Nat}

theorem firstCandidate_bounds (h : 2 ≤ total) :
    1 ≤ firstCandidate total ∧ firstCandidate total ≤ total - 1 := by
  unfold firstCandidate
  omega

/-- The search ends with the first coprime number. -/
theorem strideFrom_spec (h : 2 ≤ total) :
    ∀ {rounds candidate : Nat}, candidate ≤ total - 1 → total - candidate ≤ rounds →
      ∃ stride, strideFrom total rounds candidate = some stride ∧
        IsLeast (coprimeFrom total candidate) stride
  | 0, candidate, hle, hrounds => by omega
  | rounds + 1, candidate, hle, hrounds => by
    unfold strideFrom
    by_cases hcoprime : Nat.Coprime candidate total
    · rw [if_pos hcoprime]
      exact ⟨candidate, rfl, isLeast_coprimeFrom_self hcoprime⟩
    · have hne : candidate ≠ total - 1 := fun heq => hcoprime (heq ▸ coprime_pred h)
      rw [if_neg hcoprime, if_neg (by omega)]
      obtain ⟨stride, hstride, hleast⟩ := @strideFrom_spec h rounds (candidate + 1) (by omega) (by omega)
      exact ⟨stride, hstride, isLeast_coprimeFrom_succ hcoprime hleast⟩

/-- `coprime_stride` ends, with a stride coprime to the number of samples. -/
theorem coprimeStride_spec (hpos : 0 < total) :
    ∃ stride, coprimeStride total = some stride ∧ Nat.Coprime stride total ∧
      (2 ≤ total → IsLeast (coprimeFrom total (firstCandidate total)) stride) := by
  unfold coprimeStride
  by_cases h : total ≤ 1
  · rw [if_pos h]
    exact ⟨1, rfl, Nat.coprime_one_left _, fun h2 => by omega⟩
  · rw [if_neg h]
    have hbounds := firstCandidate_bounds (show 2 ≤ total by omega)
    obtain ⟨stride, hstride, hleast⟩ :=
      @strideFrom_spec total (by omega) total (firstCandidate total) hbounds.2 (by omega)
    exact ⟨stride, hstride, hleast.1.2, fun _ => hleast⟩

/-! ## The permutation -/

/-- The index at which a sample lies, where nothing overflows. -/
def rasterIndex (totalSamples stride index : Nat) : Nat := index * stride % totalSamples

theorem permutedRasterIndex_eq {index stride : Nat} (hindex : index < total)
    (hfits : (total - 1) * stride < 2 ^ 64) :
    permutedRasterIndex index total stride = .ok (rasterIndex total stride index) := by
  unfold permutedRasterIndex rasterIndex
  by_cases h : total ≤ 1
  · rw [if_pos h]
    have hzero : index = 0 := by omega
    rw [hzero, Nat.zero_min, Nat.zero_mul, Nat.zero_mod]
  · have hle : index * stride ≤ (total - 1) * stride := Nat.mul_le_mul_right _ (by omega)
    rw [if_neg h, if_pos (by omega)]

/-- The last sample is where the product overflows first. -/
theorem permutedRasterIndex_last {stride : Nat} (hover : 2 ^ 64 ≤ (total - 1) * stride) :
    permutedRasterIndex (total - 1) total stride = .error .overflow := by
  unfold permutedRasterIndex
  have h : ¬ total ≤ 1 := by
    intro h
    have hzero : total - 1 = 0 := by omega
    rw [hzero, Nat.zero_mul] at hover
    omega
  rw [if_neg h, if_neg (by omega)]

end Gammaboard.Sampling
