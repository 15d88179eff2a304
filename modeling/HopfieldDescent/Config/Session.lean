import HopfieldDescent.Config

/-!
# Editing settings

An editing session holds a draft and the last configuration accepted from it.  Each edit is
answered; an edit that is refused leaves the session as it was.
-/

namespace HopfieldDescent

variable {R : Type}

/-- One setting with its new value; choices are given by name. -/
inductive Assignment (R : Type) where
  /-- Names the activation. -/
  | activation (name : String)
  /-- Names the direction rule. -/
  | direction (name : String)
  /-- Names the step rule. -/
  | step (name : String)
  /-- Names the start ascent. -/
  | startAscent (name : String)
  /-- Names the stopping criterion. -/
  | stopping (name : String)
  /-- Names the gain scope. -/
  | gainScope (name : String)
  /-- Weight of the binary pull. -/
  | gamma (value : R)
  /-- Angular slack. -/
  | theta (value : R)
  /-- Distance at which the start ascent stops. -/
  | ascentStop (value : Option R)
  /-- Absorption distance. -/
  | absorption (value : Option R)
  /-- Cap on recorded iterates. -/
  | maxIterations (value : Nat)
  /-- Stopping precision. -/
  | precision (value : R)
  /-- Steepness of the activation. -/
  | gain (value : Gain R)
  /-- Settings of the dual ascent, looked at before they are taken. -/
  | dualAscent (value : DualAscentSettings R)
  /-- Start of the random draws. -/
  | seed (value : UInt64)

/-- What is done in a session. -/
inductive Edit (R : Type) where
  /-- Gives one setting a new value. -/
  | assign (assignment : Assignment R)
  /-- Asks for the draft to be accepted. -/
  | build
  /-- Goes back to the last configuration accepted. -/
  | reopen
  /-- Goes back to the standard settings. -/
  | reset

/-- The answer to an edit. -/
inductive Reply (R : Type) where
  /-- The edit was made. -/
  | done
  /-- There was nothing to go back to. -/
  | nothing
  /-- The draft was accepted. -/
  | accepted (config : Config R)
  /-- The edit was refused. -/
  | refused (cause : ConfigError)

variable [Scalar R]

/-- The draft with one setting replaced. -/
def Settings.assign (s : Settings R) : Assignment R → Except ConfigError (Settings R)
  | .activation name => return { s with activation := ← Named.parse name }
  | .direction name => return { s with direction := ← Named.parse name }
  | .step name => return { s with step := ← Named.parse name }
  | .startAscent name => return { s with startAscent := ← Named.parse name }
  | .stopping name => return { s with stopping := ← Named.parse name }
  | .gainScope name => return { s with gainScope := ← Named.parse name }
  | .gamma value => .ok { s with gamma := value }
  | .theta value => .ok { s with theta := value }
  | .ascentStop value => .ok { s with ascentStop := value }
  | .absorption value => .ok { s with absorption := value }
  | .maxIterations value => .ok { s with maxIterations := value }
  | .precision value => .ok { s with precision := value }
  | .gain value => .ok { s with gain := value }
  | .dualAscent value => return { s with dualAscent := ← value.check }
  | .seed value => .ok { s with seed := value }

/-- The draft with settings replaced one after the other, up to the first one refused. -/
def Settings.assignAll (s : Settings R) (assignments : List (Assignment R)) :
    Except ConfigError (Settings R) :=
  assignments.foldlM Settings.assign s

/-- A draft and the last configuration accepted from it. -/
structure Session (R : Type) where
  /-- The draft. -/
  draft : Settings R
  /-- The last configuration accepted. -/
  accepted : Option (Config R)

namespace Session

/-- A session that starts from the standard settings. -/
def fresh : Session R := ⟨.standard, none⟩

/-- Makes one edit. -/
def edit (session : Session R) : Edit R → Session R × Reply R
  | .assign assignment =>
    match session.draft.assign assignment with
    | .ok draft => ({ session with draft }, .done)
    | .error cause => (session, .refused cause)
  | .build =>
    match session.draft.build with
    | .ok config => ({ session with accepted := some config }, .accepted config)
    | .error cause => (session, .refused cause)
  | .reopen =>
    match session.accepted with
    | some config => ({ session with draft := config.reopen }, .done)
    | none => (session, .nothing)
  | .reset => ({ session with draft := .standard }, .done)

/-- Makes edits in order and collects the answers. -/
def editAll (session : Session R) : List (Edit R) → Session R × List (Reply R)
  | [] => (session, [])
  | e :: edits =>
    let (next, reply) := session.edit e
    let (final, replies) := next.editAll edits
    (final, reply :: replies)

end Session

end HopfieldDescent
