import HopfieldDescent.BoxMap
import HopfieldDescent.Config
import HopfieldDescent.ConstraintBlock
import HopfieldDescent.Objective

/-!
# Problems

A `Definition` is what a caller writes down: an objective, a box, and perhaps more, in any shape.  A
`Problem` is a definition that has been looked over and completed, with a start point, a gain for
every coordinate and a smoothness coefficient.  `SetupError` names what keeps a definition from
becoming a problem.
-/

namespace HopfieldDescent

/-- What the rows of a block of constraints mean. -/
inductive ConstraintKind where
  /-- Each row equals its right-hand side. -/
  | equality
  /-- Each row is at most its right-hand side. -/
  | inequality
deriving DecidableEq, Repr

/-- The word for a kind of constraints. -/
def ConstraintKind.name : ConstraintKind → String
  | .equality => "equality"
  | .inequality => "inequality"

/-- Why a definition makes no problem. -/
inductive SetupError (R : Type) where
  /-- Mask and bounds differ in length. -/
  | dimensionMismatch (mask lower upper : Nat)
  /-- Two bounds enclose nothing, or one is not finite. -/
  | invalidBounds (index : Nat)
  /-- A mask entry is neither zero nor one. -/
  | invalidMask (index value : Nat)
  /-- A block of constraints is malformed or does not suit the variables. -/
  | constraintShape (kind : ConstraintKind) (cause : ConstraintError)
  /-- The gains do not suit the variables. -/
  | invalidGain
  /-- The smoothness coefficient is not a positive number. -/
  | nonPositiveSmoothness (value : R)
  /-- A penalty is out of range. -/
  | invalidPenalty (kind : ConstraintKind) (value : R)
  /-- The start point has another number of entries than there are variables. -/
  | invalidStart (entries dimension : Nat)
  /-- Duals do not suit the rows of their block, or one is not finite. -/
  | invalidDual (kind : ConstraintKind) (entries rows : Nat)

/-- The text shown for a refusal; `write` is the text of a scalar. -/
def SetupError.message {R : Type} (write : R → String) : SetupError R → String
  | .dimensionMismatch mask lower upper =>
    s!"binary mask, lb and ub must have equal lengths, got {mask}, {lower} and {upper}"
  | .invalidBounds index =>
    s!"lb must be finite and strictly below ub, violated at index {index}"
  | .invalidMask index value =>
    s!"binary mask entry at index {index} is {value}, expected 0 or 1"
  | .constraintShape kind cause => kind.name ++ " constraints: " ++ cause.message
  | .invalidGain => "beta must be finite and positive with one entry per variable"
  | .nonPositiveSmoothness value =>
    "smoothness coefficient must be finite and positive, got " ++ write value
  | .invalidPenalty kind value =>
    kind.name ++ " penalty must be finite and non-negative (positive for inequalities), got " ++
      write value
  | .invalidStart entries dimension =>
    s!"starting point has {entries} entries but the problem has {dimension} variables"
  | .invalidDual kind entries rows =>
    kind.name ++
      s!" duals must be finite with one entry per row, got {entries} for {rows} rows"

/-- A problem as a caller writes it down. -/
structure Definition (R : Type) where
  /-- What is minimised. -/
  objective : Objective R
  /-- Lower bounds of the variables. -/
  lower : Vec R
  /-- Upper bounds of the variables. -/
  upper : Vec R
  /-- One for a binary variable, zero for a continuous one; without a mask all are continuous. -/
  mask : Option (List Nat) := none
  /-- Matrix and right-hand side of the equations. -/
  equalities : Option (DenseMatrix R × Vec R) := none
  /-- Matrix and right-hand side of the inequalities. -/
  inequalities : Option (DenseMatrix R × Vec R) := none
  /-- A point to start near. -/
  start : Option (Vec R) := none
  /-- Lipschitz constant of the gradient. -/
  smoothness : Option R := none
  /-- Weight on missed equations. -/
  equalityPenalty : R
  /-- Weight on missed inequalities. -/
  inequalityPenalty : R
  /-- Duals of the equations. -/
  equalityDual : Option (Vec R) := none
  /-- Duals of the inequalities. -/
  inequalityDual : Option (Vec R) := none

/-- The definition of an objective on a box, without constraints or anything else. -/
def Definition.ofBox {R : Type} [Scalar R] (objective : Objective R) (lower upper : Vec R) :
    Definition R :=
  { objective, lower, upper, equalityPenalty := 0.0, inequalityPenalty := 0.0 }

/-- A problem ready to be solved. -/
structure Problem (R : Type) where
  /-- What is minimised. -/
  objective : Objective R
  /-- Lower bounds of the variables. -/
  lower : Vec R
  /-- Upper bounds of the variables. -/
  upper : Vec R
  /-- Centre of the box. -/
  midpoint : Vec R
  /-- Which variables are binary. -/
  binary : List Bool
  /-- The equations. -/
  equalities : Option (ConstraintBlock R)
  /-- The inequalities. -/
  inequalities : Option (ConstraintBlock R)
  /-- Weight on missed equations. -/
  equalityPenalty : R
  /-- Weight on missed inequalities. -/
  inequalityPenalty : R
  /-- Lipschitz constant of the gradient, known or estimated. -/
  smoothness : R
  /-- Where runs start. -/
  start : Vec R
  /-- Gain of the activation in each coordinate. -/
  gain : Vec R
  /-- Duals supplied for the equations. -/
  equalityDual : Option (Vec R)
  /-- Duals supplied for the inequalities. -/
  inequalityDual : Option (Vec R)

/-- Half way between the bounds, in each coordinate. -/
def boxMidpoint {R : Type} [Scalar R] (lower upper : Vec R) : Checked (Vec R) :=
  Vec.zipExact (fun l u => 0.5 * (l + u)) lower upper

namespace Problem

variable {R : Type}

/-- Number of variables. -/
def dimension (problem : Problem R) : Nat := problem.lower.length

/-- Whether there is any block of constraints. -/
def isConstrained (problem : Problem R) : Bool :=
  problem.equalities.isSome || problem.inequalities.isSome

/-- Number of slack variables, one for each inequality. -/
def slackDimension (problem : Problem R) : Nat :=
  match problem.inequalities with
  | some block => block.height
  | none => 0

/-- The squashing of hidden states into the box of the problem. -/
def boxMap [Scalar R] (problem : Problem R) (activation : Activation) : BoxMap R :=
  ⟨activation.squashing, problem.lower, problem.upper, problem.gain⟩

/-- What a penalised block adds to the Lipschitz constant of the gradient.  The squared operator
norm of its matrix is measured by `radius`. -/
def blockSmoothness [Scalar R] (block : Option (ConstraintBlock R)) (penalty : R)
    (radius : ConstraintBlock R → Checked R := ConstraintBlock.gramSpectralRadius) : Checked R :=
  match block with
  | some block => return penalty * (← radius block)
  | none => .ok 0.0

/-- Lipschitz constant of the gradient of the objective with all penalties. -/
def effectiveSmoothness [Scalar R] (problem : Problem R)
    (radius : ConstraintBlock R → Checked R := ConstraintBlock.gramSpectralRadius) :
    Checked R := do
  let equalities ← blockSmoothness problem.equalities problem.equalityPenalty radius
  let inequalities ← blockSmoothness problem.inequalities problem.inequalityPenalty radius
  return problem.smoothness + equalities + inequalities

end Problem

end HopfieldDescent
