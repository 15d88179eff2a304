import HopfieldDescent.Config
import HopfieldDescent.Json.Reader

/-!
# Configurations as JSON values

A configuration is written as an object with one member for each setting.  Reading is more liberal
than writing: members may come in any order, missing ones keep their standard value, members with
unknown names are passed over, and a list of values in the order of the settings is accepted in
place of an object.  A known member that comes twice is refused.

The rules are those of the readers that serde derives, of which there are three kinds:
* a record with standard values for what is missing (`Json.readRecord`);
* a choice, which is named by a text or by an object whose only member is null (`Json.readChoice`);
* a value without a tag, which is buffered as a whole before its form tells which one it is
  (`Json.readGain`).

Faults are met in reading order: the text, the shape of a value, the ranges of the dual ascent as
soon as its settings are complete, and the ranges of the whole at the end.
-/

namespace HopfieldDescent

variable {R α : Type}

/-- Why a value could not be read. -/
inductive ReadFault where
  /-- The text is at fault. -/
  | text (fault : SyntaxFault)
  /-- A value of another kind than the one asked for. -/
  | wrongShape
  /-- A text that names no choice. -/
  | unknownName (name : String)
  /-- A known member that comes a second time. -/
  | repeatedMember (name : String)
  /-- The settings were read and then refused. -/
  | refused (cause : ConfigError)
deriving DecidableEq, Repr

namespace Json

/-! ## Single values -/

/-- A value of another kind than asked for; a fault of its text comes first. -/
def mismatched : Json R → ReadFault
  | .broken fault | .unreadable fault => .text fault
  | _ => .wrongShape

/-- The choice that documents call by the given name. -/
def choiceNamed [Named α] (name : String) : Except ReadFault α :=
  match Named.findInDocument? name with
  | some choice => .ok choice
  | none => .error (.unknownName name)

/-- A choice, given by its name, or by an object whose only member has that name and is null.  After
the null, anything but the closing brace is out of place, whatever it is. -/
def readChoice [Named α] : Json R → Except ReadFault α
  | .string name => choiceNamed name
  | .object ((.readable name, value) :: others) ending => do
    let choice ← choiceNamed name
    match value, others, ending with
    | .null, [], none => .ok choice
    | .null, _, _ => .error (.text .unexpected)
    | value, _, _ => .error value.mismatched
  | .object ((.unreadable fault, _) :: _) _ | .object [] (some fault) | .broken fault
  | .unreadable fault => .error (.text fault)
  | .object [] none | .null | .bool _ | .number _ | .array _ _ => .error (.text .unexpected)

/-- A natural number below two to the power 64. -/
def readCount : Json R → Except ReadFault Nat
  | .number (.natural n) => .ok n
  | value => .error value.mismatched

/-- A seed, given as a natural number. -/
def readSeed (value : Json R) : Except ReadFault UInt64 := UInt64.ofNat <$> value.readCount

variable [Scalar R]

/-- A scalar; natural numbers are accepted. -/
def readScalar : Json R → Except ReadFault R
  | .number n => .ok n.toScalar
  | value => .error value.mismatched

/-- A scalar, or null for none. -/
def readOptionalScalar : Json R → Except ReadFault (Option R)
  | .null => .ok none
  | value => some <$> value.readScalar

/-- How deep arrays and objects may be nested in a text. -/
def nestingLimit : Nat := 127

/-- A gain: one number, or a list of them.  The value is taken in whole before its shape is looked
at; it stands one level inside the configuration. -/
def readGain (value : Json R) : Except ReadFault (Gain R) :=
  match value.faultWhenKept (nestingLimit - 1) with
  | some fault => .error (.text fault)
  | none =>
    match value with
    | .number n => .ok (.uniform n.toScalar)
    | .array items _ => .perCoordinate <$> items.mapM readScalar
    | _ => .error .wrongShape

/-! ## Records -/

/-- A member of a record: its name, and how its value changes the record. -/
structure Member (R α : Type) where
  /-- The name in an object. -/
  name : String
  /-- Reads the value as a change of the record. -/
  read : Json R → Except ReadFault (α → α)

/-- A member whose value is stored in the record. -/
def Member.of {β : Type} (name : String) (read : Json R → Except ReadFault β)
    (store : β → α → α) : Member R α :=
  ⟨name, fun value => store <$> read value⟩

omit [Scalar R] in
/-- Takes the members of an object in order; `seen` are the known names so far. -/
def takeMembers (known : List (Member R α)) :
    (seen : List String) → α → List (MemberName × Json R) → Except ReadFault α
  | _, target, [] => .ok target
  | _, _, (.unreadable fault, _) :: _ => .error (.text fault)
  | seen, target, (.readable name, value) :: rest =>
    match known.find? fun member => member.name == name with
    | none =>
      match value.faultWhenSkipped with
      | some fault => .error (.text fault)
      | none => takeMembers known seen target rest
    | some member =>
      if seen.contains name then .error (.repeatedMember name)
      else do
        let change ← member.read value
        takeMembers known (name :: seen) (change target) rest

omit [Scalar R] in
/-- Takes values in the order of the members; values that are missing change nothing, and more
values than members are refused. -/
def takePositions : List (Member R α) → α → List (Json R) → Except ReadFault α
  | _, target, [] => .ok target
  | [], _, _ :: _ => .error (.text .trailingText)
  | member :: known, target, value :: rest => do
    let change ← member.read value
    takePositions known (change target) rest

omit [Scalar R] in
/-- A record read to its end, or the fault in place of the end. -/
def finishRecord (ending : Option SyntaxFault) (record : α) : Except ReadFault α :=
  match ending with
  | some fault => .error (.text fault)
  | none => .ok record

omit [Scalar R] in
/-- Reads a record from an object or from a list, starting from the given one. -/
def readRecord (known : List (Member R α)) (start : α) : Json R → Except ReadFault α
  | .object members ending => do finishRecord ending (← takeMembers known [] start members)
  | .array items ending => do finishRecord ending (← takePositions known start items)
  | value => .error value.mismatched

end Json

/-- A refusal met while reading. -/
def ReadFault.ofRefusal : Except ConfigError α → Except ReadFault α
  | .ok value => .ok value
  | .error cause => .error (.refused cause)

variable [Scalar R]

/-! ## Dual ascent -/

namespace DualAscentSettings

/-- The members of the settings of the dual ascent, in order. -/
def members : List (Json.Member R (DualAscentSettings R)) :=
  [.of "tolerance" Json.readScalar fun v s => { s with tolerance := v },
   .of "max_outer_iterations" Json.readCount fun v s => { s with maxOuter := v },
   .of "max_inner_iterations" Json.readCount fun v s => { s with maxInner := v },
   .of "step_decay" Json.readScalar fun v s => { s with stepDecay := v },
   .of "initial_dual" Json.readScalar fun v s => { s with initialDual := v }]

/-- Settings of the dual ascent from a JSON value. -/
def ofJson (value : Json R) : Except ReadFault (DualAscentSettings R) := do
  ReadFault.ofRefusal (← Json.readRecord members standard value).check

omit [Scalar R] in
/-- Settings of the dual ascent as a JSON value. -/
def toJson (s : DualAscentSettings R) : Json R :=
  .ofMembers
    [("tolerance", .number (.real s.tolerance)),
     ("max_outer_iterations", .number (.natural s.maxOuter)),
     ("max_inner_iterations", .number (.natural s.maxInner)),
     ("step_decay", .number (.real s.stepDecay)),
     ("initial_dual", .number (.real s.initialDual))]

end DualAscentSettings

/-! ## Configurations -/

/-- The members of a configuration, in order. -/
def Settings.members : List (Json.Member R (Settings R)) :=
  [.of "activation" Json.readChoice fun v s => { s with activation := v },
   .of "gamma" Json.readScalar fun v s => { s with gamma := v },
   .of "theta" Json.readScalar fun v s => { s with theta := v },
   .of "ascent_stop_criterion" Json.readOptionalScalar fun v s => { s with ascentStop := v },
   .of "absorption_criterion" Json.readOptionalScalar fun v s => { s with absorption := v },
   .of "max_iterations" Json.readCount fun v s => { s with maxIterations := v },
   .of "stopping_criterion" Json.readChoice fun v s => { s with stopping := v },
   .of "direction" Json.readChoice fun v s => { s with direction := v },
   .of "step" Json.readChoice fun v s => { s with step := v },
   .of "initial_ascent" Json.readChoice fun v s => { s with startAscent := v },
   .of "precision_stopping_criterion" Json.readScalar fun v s => { s with precision := v },
   .of "beta" Json.readGain fun v s => { s with gain := v },
   .of "beta_scope" Json.readChoice fun v s => { s with gainScope := v },
   .of "dual_ascent" DualAscentSettings.ofJson fun v s => { s with dualAscent := v },
   .of "seed" Json.readSeed fun v s => { s with seed := v }]

omit [Scalar R] in
/-- A scalar as a JSON value, or null for none. -/
def Json.ofOptionalScalar : Option R → Json R
  | some v => .number (.real v)
  | none => .null

/-- A gain as a JSON value. -/
def Gain.toJson : Gain R → Json R
  | .uniform value => .number (.real value)
  | .perCoordinate values => .ofItems (values.map fun v => .number (.real v))

namespace Config

/-- A configuration from a JSON value. -/
def ofJson (value : Json R) : Except ReadFault (Config R) := do
  ReadFault.ofRefusal (← Json.readRecord Settings.members .standard value).build

/-- A configuration as a JSON value. -/
def toJson (config : Config R) : Json R :=
  .ofMembers
    [("activation", .string (Named.documentName config.activation)),
     ("gamma", .number (.real config.gamma)),
     ("theta", .number (.real config.theta)),
     ("ascent_stop_criterion", Json.ofOptionalScalar config.ascentStop),
     ("absorption_criterion", Json.ofOptionalScalar config.absorption),
     ("max_iterations", .number (.natural config.maxIterations)),
     ("stopping_criterion", .string (Named.documentName config.stopping)),
     ("direction", .string (Named.documentName config.direction)),
     ("step", .string (Named.documentName config.step)),
     ("initial_ascent", .string (Named.documentName config.startAscent)),
     ("precision_stopping_criterion", .number (.real config.precision)),
     ("beta", config.gain.toJson),
     ("beta_scope", .string (Named.documentName config.gainScope)),
     ("dual_ascent", config.dualAscent.toJson),
     ("seed", .number (.natural config.seed.toNat))]

/-- A configuration from a text; what follows the value is looked at last. -/
def ofText (text : String) : Except ReadFault (Config Float) := do
  let document := Document.ofText text
  let config ← ofJson document.value
  if document.trailing then .error (.text .trailingText) else .ok config

end Config

end HopfieldDescent
