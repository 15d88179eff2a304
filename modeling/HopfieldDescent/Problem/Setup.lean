import HopfieldDescent.Notice
import HopfieldDescent.Problem.Gain
import HopfieldDescent.Problem.Smoothness
import HopfieldDescent.Problem.StartPoint

/-!
# Setting up a problem

A definition is looked over in a fixed order, and the first thing that does not fit is reported:
lengths, bounds, mask, constraints, penalties, duals, the given point.  These checks evaluate
nothing.  Then the smoothness coefficient is found, the gains are resolved, and the start point is
computed; this part may draw random numbers, from the source that belongs to the seed of the
configuration.
-/

namespace HopfieldDescent

namespace Definition

variable {R : Type} [Scalar R]

/-- A definition whose parts fit together. -/
structure Frame (R : Type) where
  /-- Which variables are binary. -/
  binary : List Bool
  /-- The equations. -/
  equalities : Option (ConstraintBlock R)
  /-- The inequalities. -/
  inequalities : Option (ConstraintBlock R)
  /-- Duals supplied for the equations. -/
  equalityDual : Option (Vec R)
  /-- Duals supplied for the inequalities. -/
  inequalityDual : Option (Vec R)

/-- Whether two bounds are finite and enclose an interval. -/
def boundsEnclose (lower upper : R) : Bool :=
  Scalar.isFinite lower && Scalar.isFinite upper && decide (lower < upper)

/-- The first coordinate whose bounds enclose nothing. -/
def badBounds? (lower upper : Vec R) : Option Nat :=
  (List.zip lower upper).findIdx? fun (l, u) => !boundsEnclose l u

/-- Which variables are binary, by a mask of zeros and ones. -/
def checkMask (mask : List Nat) : Except (SetupError R) (List Bool) :=
  match mask.zipIdx.find? fun (value, _) => decide (1 < value) with
  | some (value, index) => .error (.invalidMask index value)
  | none => .ok (mask.map (· == 1))

/-- A block of constraints on `n` variables. -/
def checkBlock (kind : ConstraintKind) (n : Nat) :
    Option (DenseMatrix R × Vec R) → Except (SetupError R) (Option (ConstraintBlock R))
  | none => .ok none
  | some (matrix, rhs) =>
    match ConstraintBlock.ofSystem matrix rhs with
    | .error cause => .error (.constraintShape kind cause)
    | .ok block =>
      match block.checkColumns n with
      | .error cause => .error (.constraintShape kind cause)
      | .ok () => .ok (some block)

/-- Refuses a penalty that is not finite, or below zero, or zero where it has to be positive. -/
def checkPenalty (kind : ConstraintKind) (positive : Bool) (value : R) :
    Except (SetupError R) Unit :=
  if Scalar.isFinite value && (if positive then decide (0.0 < value) else decide (0.0 ≤ value))
  then .ok () else .error (.invalidPenalty kind value)

/-- The duals supplied for a block; those for an absent block are dropped. -/
def checkDual (kind : ConstraintKind) (block : Option (ConstraintBlock R))
    (dual : Option (Vec R)) : Except (SetupError R) (Option (Vec R)) :=
  match dual, block with
  | some dual, some block =>
    if dual.length = block.height ∧ Vec.isFinite dual then .ok (some dual)
    else .error (.invalidDual kind dual.length block.height)
  | _, _ => .ok none

/-- Refuses a given point with another number of entries than variables. -/
def checkStart (n : Nat) : Option (Vec R) → Except (SetupError R) Unit
  | some start =>
    if start.length = n then .ok () else .error (.invalidStart start.length n)
  | none => .ok ()

/-- Looks over the parts of a definition. -/
def frame (definition : Definition R) : Except (SetupError R) (Frame R) := do
  let n := definition.lower.length
  let mask := definition.mask.getD (List.replicate n 0)
  if mask.length ≠ n ∨ definition.upper.length ≠ n then
    throw (.dimensionMismatch mask.length n definition.upper.length)
  if let some index := badBounds? definition.lower definition.upper then
    throw (.invalidBounds index)
  let binary ← checkMask mask
  let equalities ← checkBlock .equality n definition.equalities
  let inequalities ← checkBlock .inequality n definition.inequalities
  checkPenalty .equality false definition.equalityPenalty
  checkPenalty .inequality inequalities.isSome definition.inequalityPenalty
  let equalityDual ← checkDual .equality equalities definition.equalityDual
  let inequalityDual ← checkDual .inequality inequalities definition.inequalityDual
  checkStart n definition.start
  return { binary, equalities, inequalities, equalityDual, inequalityDual }

end Definition

variable {R : Type} [Scalar R]

/-- A smoothness coefficient, what was said about it, and the random source after it. -/
def Definition.findSmoothness {G : Type} [RandomSource G R] (definition : Definition R)
    (source : G) : Checked (R × List (Notice R) × G) := do
  let known ← match definition.smoothness with
    | some value => .ok (some value)
    | none => definition.objective.smoothness
  match known with
  | some value => return (value, [], source)
  | none =>
    let (value, source) ←
      Smoothness.estimate definition.objective definition.lower definition.upper source
    let notice : Notice R :=
      ⟨.debug, "estimated smoothness coefficient",
        [("smoothness_coef", .scalar value), ("samples", .count definition.lower.length)]⟩
    return (value, [notice], source)

/-- A problem, and what was said while it was set up. -/
structure Prepared (R : Type) where
  /-- The problem. -/
  problem : Problem R
  /-- The notices, in order. -/
  notices : List (Notice R)

/-- Completes a definition to a problem; `G` is the random source in use. -/
def setup (G : Type) [RandomSource G R] (definition : Definition R) (config : Config R) :
    Except (Failure (SetupError R)) (Prepared R) := do
  let frame ← Failure.ofExcept definition.frame
  let source : G := RandomSource.ofSeed config.seed
  let (smoothness, notices, source) ← definition.findSmoothness source
  if !Scalar.isPositive smoothness then
    Failure.refuse (.nonPositiveSmoothness smoothness)
  let gain ← Failure.ofExcept (config.coordinateGains frame.binary)
  let (start, _) ← StartPoint.compute config definition.objective definition.lower
    definition.upper frame.binary smoothness definition.start source
  let midpoint ← boxMidpoint definition.lower definition.upper
  return {
    problem :=
      { objective := definition.objective
        lower := definition.lower
        upper := definition.upper
        midpoint
        binary := frame.binary
        equalities := frame.equalities
        inequalities := frame.inequalities
        equalityPenalty := definition.equalityPenalty
        inequalityPenalty := definition.inequalityPenalty
        smoothness
        start
        gain
        equalityDual := frame.equalityDual
        inequalityDual := frame.inequalityDual }
    notices := notices ++ [⟨.debug, "computed start point", []⟩] }

end HopfieldDescent
