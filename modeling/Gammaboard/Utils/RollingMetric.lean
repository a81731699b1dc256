/-!
# Rolling metrics

`runners/rolling_metric.rs`: the mean and the variance of milliseconds per
sample, smoothed by the number of samples. Floats are of any type with the
operations of `f64`.
-/

namespace Gammaboard.Utils

/-- The operations of `f64` without a class of their own. -/
structure FloatOps (F : Type) where
  isFinite : F → Bool
  powf : F → F → F
  max : F → F → F
  /-- `x.round() as usize` -/
  roundUsize : F → Nat

structure RollingMetric (F : Type) where
  mean : Option F
  variance : F

section Metric

variable {F : Type} [Add F] [Sub F] [Mul F] [Div F] [LT F] [LE F] [DecidableLT F] [DecidableLE F]
  [NatCast F] [OfScientific F] (ops : FloatOps F)

/-- `x.clamp(0.0, 1.0)` -/
def clampUnit (x : F) : F := if x < 0.0 then 0.0 else if (1.0 : F) < x then 1.0 else x

def RollingMetric.empty : RollingMetric F := ⟨none, 0.0⟩

def RollingMetric.observeBatch (metric : RollingMetric F) (totalMs : F) (samples : Nat) :
    RollingMetric F :=
  if samples = 0 then metric
  else
    let observation := totalMs / (samples : F)
    if !ops.isFinite observation || decide (observation < 0.0) then metric
    else
      let effectiveAlpha := clampUnit (1.0 - ops.powf 0.8 ((samples : F) / 1000.0))
      match metric.mean with
      | some currentMean =>
        let delta := observation - currentMean
        { mean := some (currentMean + effectiveAlpha * delta)
          variance := ops.max
            ((1.0 - effectiveAlpha) * (metric.variance + effectiveAlpha * delta * delta)) 0.0 }
      | none => { mean := some observation, variance := 0.0 }

end Metric

end Gammaboard.Utils
