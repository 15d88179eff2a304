import HopfieldDescent.Config.Error

/-!
# Named choices

The settings that pick one of finitely many rules.  Every choice has a name, under which it is asked
for and shown; a text that is nobody's name is refused with an error of its own for each kind of
choice.

The names are a table kept by hand.  Documents do not use it: there a choice goes by its identifier,
rewritten in small letters with underscores.
-/

namespace HopfieldDescent

/-- A finite kind of choices with a name for each. -/
class Named (α : Type) where
  /-- Every choice, in a fixed order. -/
  all : List α
  /-- The identifier of a choice, each word with a capital. -/
  identifier : α → String
  /-- The name of a choice. -/
  name : α → String
  /-- The refusal of a text that names no choice. -/
  unknown : String → ConfigError

/-- An identifier in small letters, with an underscore before every capital but the first letter. -/
def snakeCase (identifier : String) : String :=
  match identifier.toList with
  | [] => ""
  | first :: rest =>
    String.ofList
      (first.toLower :: rest.flatMap fun c => if c.isUpper then ['_', c.toLower] else [c])

namespace Named

variable {α : Type} [Named α]

/-- The first choice with the given name. -/
def find? (text : String) : Option α := all.find? fun choice => name choice == text

/-- The choice with the given name, or the refusal of that name. -/
def parse (text : String) : Except ConfigError α :=
  match find? text with
  | some choice => .ok choice
  | none => .error (unknown α text)

/-- What a choice is called in a document. -/
def documentName (choice : α) : String := snakeCase (identifier choice)

/-- The first choice that a document calls by the given text. -/
def findInDocument? (text : String) : Option α :=
  all.find? fun choice => documentName choice == text

end Named

/-- The squashing function between the hidden state and the box. -/
inductive Activation where
  /-- A clipped line. -/
  | piecewiseLinear
  /-- A quarter wave of the sine to each side, constant beyond. -/
  | sine
  /-- Two exponential branches that meet in the centre. -/
  | exponential
  /-- The hyperbolic tangent. -/
  | hyperbolicTangent
  /-- No squashing at all. -/
  | identity
deriving DecidableEq, Repr

instance : Named Activation where
  all := [.piecewiseLinear, .sine, .exponential, .hyperbolicTangent, .identity]
  identifier
    | .piecewiseLinear => "Pwl"
    | .sine => "Sin"
    | .exponential => "Exp"
    | .hyperbolicTangent => "Tanh"
    | .identity => "Identity"
  name
    | .piecewiseLinear => "pwl"
    | .sine => "sin"
    | .exponential => "exp"
    | .hyperbolicTangent => "tanh"
    | .identity => "identity"
  unknown := .unknownActivation

/-- How the search direction is chosen. -/
inductive DirectionRule where
  /-- Against the gradient. -/
  | classic
  /-- Against the gradient, with a random factor on every coordinate. -/
  | stochastic
  /-- Blended with a pull of binary coordinates towards their nearer bound. -/
  | binary
  /-- Blended with a pull that grows with the distance from the midpoint. -/
  | softBinary
deriving DecidableEq, Repr

instance : Named DirectionRule where
  all := [.classic, .stochastic, .binary, .softBinary]
  identifier
    | .classic => "Classic"
    | .stochastic => "Stochastic"
    | .binary => "Binary"
    | .softBinary => "SoftBinary"
  name
    | .classic => "classic"
    | .stochastic => "stochastic"
    | .binary => "binary"
    | .softBinary => "soft_binary"
  unknown := .unknownDirection

/-- How long a step is. -/
inductive StepRule where
  /-- A closed formula from curvature bounds. -/
  | classic
  /-- Halving until the objective has decreased enough. -/
  | armijo
deriving DecidableEq, Repr

instance : Named StepRule where
  all := [.classic, .armijo]
  identifier
    | .classic => "Classic"
    | .armijo => "Armijo"
  name
    | .classic => "classic"
    | .armijo => "armijo"
  unknown := .unknownStepRule

/-- Which coordinates the ascent before the first step may move. -/
inductive StartAscent where
  /-- All of them. -/
  | ascent
  /-- All but the binary ones, which stay where they are. -/
  | binaryNeutralAscent
deriving DecidableEq, Repr

instance : Named StartAscent where
  all := [.ascent, .binaryNeutralAscent]
  identifier
    | .ascent => "Ascent"
    | .binaryNeutralAscent => "BinaryNeutralAscent"
  name
    | .ascent => "ascent"
    | .binaryNeutralAscent => "binary_neutral_ascent"
  unknown := .unknownStartAscent

/-- What has to become small for a run to have converged. -/
inductive StoppingCriterion where
  /-- The gradient, weighted with the proxy distance. -/
  | gradient
deriving DecidableEq, Repr

instance : Named StoppingCriterion where
  all := [.gradient]
  identifier
    | .gradient => "Gradient"
  name
    | .gradient => "gradient"
  unknown := .unknownStoppingCriterion

/-- Which coordinates a single gain applies to; the others have gain one. -/
inductive GainScope where
  /-- The continuous coordinates. -/
  | continuousOnly
  /-- The binary coordinates. -/
  | binaryOnly
  /-- Every coordinate. -/
  | all
deriving DecidableEq, Repr

instance : Named GainScope where
  all := [.continuousOnly, .binaryOnly, .all]
  identifier
    | .continuousOnly => "ContinuousOnly"
    | .binaryOnly => "BinaryOnly"
    | .all => "All"
  name
    | .continuousOnly => "continuous_only"
    | .binaryOnly => "binary_only"
    | .all => "all"
  unknown := .unknownGainScope

/-- Whether a single gain applies to a coordinate. -/
def GainScope.covers (scope : GainScope) (isBinary : Bool) : Bool :=
  match scope with
  | .all => true
  | .continuousOnly => !isBinary
  | .binaryOnly => isBinary

end HopfieldDescent
