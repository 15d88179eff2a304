/-!
# Notices

What the algorithms have to say while they work, as data: a level, a text and named values.
-/

namespace HopfieldDescent

/-- How much a notice matters. -/
inductive Level where
  /-- Of interest when something is looked into. -/
  | debug
  /-- Of interest while a run is watched. -/
  | info
  /-- Something did not go as intended. -/
  | warn
deriving DecidableEq, Repr

/-- A value in a notice. -/
inductive NoticeValue (R : Type) where
  /-- A scalar. -/
  | scalar (value : R)
  /-- The least scalar seen, infinite when none was. -/
  | least (value : Option R)
  /-- A count. -/
  | count (value : Nat)
  /-- A word. -/
  | word (value : String)

/-- Something said by an algorithm at work. -/
structure Notice (R : Type) where
  /-- How much it matters. -/
  level : Level
  /-- The text. -/
  message : String
  /-- Named values, in order. -/
  fields : List (String × NoticeValue R)

/-- Whether a notice is at least as severe as a level. -/
def Level.admits : (least : Level) → Level → Bool
  | .debug, _ => true
  | .info, level => level != .debug
  | .warn, level => level == .warn

end HopfieldDescent
