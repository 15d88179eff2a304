/-!
# Operands that do not fit

Vectors and matrices carry their size at run time.  An operation whose operands do not fit has no
value; it reports a `Breach` instead of truncating, and everything built on it passes the breach on.
A `Failure` is either such a breach or a refusal that the operation is meant to give.
-/

namespace HopfieldDescent

/-- What went wrong in a call whose arguments do not fit together. -/
inductive Breach where
  /-- Two lengths that had to agree. -/
  | lengths (left right : Nat)
  /-- An interval whose lower end is not at most its upper end. -/
  | emptyInterval
  /-- A record past the room set aside for it. -/
  | capacity (room : Nat)
deriving DecidableEq, Repr

/-- A value, or the breach that left it without one. -/
abbrev Checked (α : Type) := Except Breach α

/-- Why an operation gave no result: it refused for a cause of its own, or its operands did not
fit. -/
inductive Failure (ε : Type) where
  /-- The operation refuses its input. -/
  | refused (cause : ε)
  /-- Operands did not fit. -/
  | breach (breach : Breach)

/-- A checked computation inside one that may also refuse. -/
instance (ε : Type) : MonadLift (Except Breach) (Except (Failure ε)) where
  monadLift
    | .ok value => .ok value
    | .error breach => .error (.breach breach)

/-- A refusal as the failure it is. -/
def Failure.refuse {ε α : Type} (cause : ε) : Except (Failure ε) α := .error (.refused cause)

/-- The failure of a step that only ever refuses. -/
def Failure.ofExcept {ε α : Type} : Except ε α → Except (Failure ε) α
  | .ok value => .ok value
  | .error cause => .error (.refused cause)

namespace Breach

/-- The condition that two lengths agree. -/
def sameLength (left right : Nat) : Checked Unit :=
  if left = right then .ok () else .error (.lengths left right)

end Breach

end HopfieldDescent
