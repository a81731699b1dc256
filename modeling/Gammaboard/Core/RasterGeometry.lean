import Mathlib.Algebra.Order.Ring.Nat
import Mathlib.Data.Nat.Notation
import Mathlib.Tactic.Common

/-!
# Raster geometries

The planes and lines of `core/tasks.rs` over which a raster is laid, what their
validation asks, the number of their points and the point of an index. Floats
are of any type with the operations of `f64`.
-/

namespace Gammaboard.Core

/-- The operations of `f64` on norms, and the test for finiteness. -/
structure NormOps (F : Type) where
  isFinite : F → Bool
  sqrt : F → F
  abs : F → F

structure Linspace (F : Type) where
  start : F
  stop : F
  count : Nat

structure PlaneRasterGeometry (F : Type) where
  offset : List F
  uVector : List F
  vVector : List F
  uLinspace : Linspace F
  vLinspace : Linspace F
  discrete : List Int

structure LineRasterGeometry (F : Type) where
  offset : List F
  direction : List F
  linspace : Linspace F
  discrete : List Int

section Floats

variable {F : Type} [Add F] [Sub F] [Mul F] [Div F] [LT F] [DecidableLT F] [BEq F] [NatCast F]
  [OfScientific F] (ops : NormOps F)

def vectorNormSq (values : List F) : F := (values.map fun v => v * v).foldl (· + ·) 0.0

def vectorsAreIndependent (left right : List F) : Bool :=
  let leftNorm := ops.sqrt (vectorNormSq left)
  let rightNorm := ops.sqrt (vectorNormSq right)
  if leftNorm == 0.0 || rightNorm == 0.0 then false
  else
    let cosine := ((left.zip right).map fun e => e.1 * e.2).foldl (· + ·) 0.0 / (leftNorm * rightNorm)
    decide ((1e-9 : F) < 1.0 - ops.abs cosine)

namespace Linspace

def validate (linspace : Linspace F) (label : String) : Except String Unit :=
  if linspace.count = 0 then .error (label ++ " count must be > 0")
  else if !ops.isFinite linspace.start || !ops.isFinite linspace.stop then
    .error (label ++ " bounds must be finite")
  else .ok ()

def valueAt (linspace : Linspace F) (index : Nat) : F :=
  if linspace.count ≤ 1 then linspace.start
  else
    let t := ((min index (linspace.count - 1) : Nat) : F) / ((linspace.count - 1 : Nat) : F)
    linspace.start + t * (linspace.stop - linspace.start)

end Linspace

namespace PlaneRasterGeometry

def validate (geometry : PlaneRasterGeometry F) : Except String Unit := do
  geometry.uLinspace.validate ops "u_linspace"
  geometry.vLinspace.validate ops "v_linspace"
  if geometry.offset.length = 0 then
    .error "plane geometry offset must have at least one continuous dimension"
  else if geometry.uVector.length ≠ geometry.offset.length ∨
      geometry.vVector.length ≠ geometry.offset.length then
    .error "plane geometry vectors must match offset dimensionality"
  else if vectorNormSq geometry.uVector == 0.0 || vectorNormSq geometry.vVector == 0.0 then
    .error "plane geometry vectors must be non-zero"
  else if !vectorsAreIndependent ops geometry.uVector geometry.vVector then
    .error "plane geometry vectors must not be parallel"
  else .ok ()

/-- The saturating product of the two counts. -/
def nrPoints (geometry : PlaneRasterGeometry F) : Nat :=
  min (geometry.uLinspace.count * geometry.vLinspace.count) (2 ^ 64 - 1)

def pointAt (geometry : PlaneRasterGeometry F) (index : Nat) : List F :=
  let width := max geometry.uLinspace.count 1
  let u := geometry.uLinspace.valueAt (index % width)
  let v := geometry.vLinspace.valueAt (index / width)
  ((geometry.offset.zip geometry.uVector).zip geometry.vVector).map fun e =>
    e.1.1 + u * e.1.2 + v * e.2

end PlaneRasterGeometry

namespace LineRasterGeometry

def validate (geometry : LineRasterGeometry F) : Except String Unit := do
  geometry.linspace.validate ops "linspace"
  if geometry.offset.length = 0 then
    .error "line geometry offset must have at least one continuous dimension"
  else if geometry.direction.length ≠ geometry.offset.length then
    .error "line geometry direction must match offset dimensionality"
  else if vectorNormSq geometry.direction == 0.0 then
    .error "line geometry direction must be non-zero"
  else .ok ()

def nrPoints (geometry : LineRasterGeometry F) : Nat := geometry.linspace.count

def pointAt (geometry : LineRasterGeometry F) (index : Nat) : List F :=
  let t := geometry.linspace.valueAt index
  (geometry.offset.zip geometry.direction).map fun e => e.1 + t * e.2

end LineRasterGeometry

end Floats

/-- `RasterGeometry`: what the raster samplers use of a plane or a line. -/
structure RasterGeometry (F : Type) where
  nrPoints : Nat
  pointAt : Nat → List F
  discrete : List Int

section Geometries

variable {F : Type} [Add F] [Sub F] [Mul F] [Div F] [LT F] [DecidableLT F] [BEq F] [NatCast F]
  [OfScientific F] {ops : NormOps F}

def PlaneRasterGeometry.raster (geometry : PlaneRasterGeometry F) : RasterGeometry F :=
  ⟨geometry.nrPoints, geometry.pointAt, geometry.discrete⟩

def LineRasterGeometry.raster (geometry : LineRasterGeometry F) : RasterGeometry F :=
  ⟨geometry.nrPoints, geometry.pointAt, geometry.discrete⟩

/-- The counts of an accepted geometry are `usize` and not zero, so it has a point. -/
inductive Accepted (ops : NormOps F) : RasterGeometry F → Prop where
  | plane (geometry : PlaneRasterGeometry F) : geometry.validate ops = .ok () →
      Accepted ops geometry.raster
  | line (geometry : LineRasterGeometry F) : geometry.validate ops = .ok () →
      geometry.linspace.count < 2 ^ 64 → Accepted ops geometry.raster

omit [Add F] [Sub F] [Mul F] [Div F] [LT F] [DecidableLT F] [BEq F] [NatCast F] [OfScientific F] in
theorem Linspace.count_pos {linspace : Linspace F} {label : String}
    (h : linspace.validate ops label = .ok ()) : 0 < linspace.count := by
  unfold Linspace.validate at h
  split at h
  · cases h
  · omega

/-- An accepted geometry has at least one point, and fewer than `2 ^ 64`. -/
theorem Accepted.nrPoints {geometry : RasterGeometry F} (h : Accepted ops geometry) :
    0 < geometry.nrPoints ∧ geometry.nrPoints < 2 ^ 64 := by
  cases h with
  | plane plane hvalid =>
    unfold PlaneRasterGeometry.validate at hvalid
    cases hu : plane.uLinspace.validate ops "u_linspace" with
    | error e =>
      rw [hu] at hvalid
      cases hvalid
    | ok _ =>
      rw [hu] at hvalid
      cases hv : plane.vLinspace.validate ops "v_linspace" with
      | error e =>
        rw [hv] at hvalid
        cases hvalid
      | ok _ =>
        have hpos := Nat.mul_pos (Linspace.count_pos hu) (Linspace.count_pos hv)
        show 0 < min _ _ ∧ min _ _ < 2 ^ 64
        omega
  | line line hvalid hcount =>
    unfold LineRasterGeometry.validate at hvalid
    cases hl : line.linspace.validate ops "linspace" with
    | error e =>
      rw [hl] at hvalid
      cases hvalid
    | ok _ => exact ⟨Linspace.count_pos hl, hcount⟩

end Geometries

end Gammaboard.Core
