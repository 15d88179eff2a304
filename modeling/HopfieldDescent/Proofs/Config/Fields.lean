import Mathlib
import HopfieldDescent.Proofs.Config.Choice
import HopfieldDescent.Proofs.Json.Record

/-!
# The fields of a configuration

`DualAscentSettings.fields` and `Settings.fields` are the tables of the members that the reader
knows, each with its place in the record and with the ways in which its value may be written.  Both
tables are faithful, so what holds of records in general holds of these two.
-/

namespace HopfieldDescent

variable {R : Type}

/-! ## Single values as they are written -/

namespace Json

section Scalars

variable [Scalar R]

/-- A scalar is written as any numeral that denotes it, a natural number included. -/
def WritesScalar (v : R) (value : Json R) : Prop :=
  ∃ n : Numeral R, n.toScalar = v ∧ value = .number n

/-- A scalar that may be missing is written as null then. -/
def WritesOptional : Option R → Json R → Prop
  | none, value => value = .null
  | some v, value => WritesScalar v value

/-- A gain is written as a number, or as an array of numbers. -/
def WritesGain : Gain R → Json R → Prop
  | .uniform v, value => WritesScalar v value
  | .perCoordinate values, value =>
    ∃ items, List.Forall₂ WritesScalar values items ∧ value = .ofItems items

/-- A written scalar is read back. -/
lemma readScalar_of_writes {v : R} {value : Json R} (h : WritesScalar v value) :
    value.readScalar = .ok v := by
  obtain ⟨n, rfl, rfl⟩ := h
  rfl

/-- A written scalar is read back where null would have been accepted too. -/
lemma readOptionalScalar_of_writes {v : Option R} {value : Json R} (h : WritesOptional v value) :
    value.readOptionalScalar = .ok v := by
  cases v with
  | none =>
    obtain rfl : value = .null := h
    rfl
  | some v =>
    obtain ⟨n, rfl, rfl⟩ := h
    rfl

/-- Written scalars are read back one after the other. -/
lemma mapM_readScalar_of_writes {values : List R} {items : List (Json R)}
    (h : List.Forall₂ WritesScalar values items) : items.mapM readScalar = .ok values :=
  Outcome.mapM_eq_ok.2 (h.flip.imp fun _ _ => readScalar_of_writes)

/-- Written scalars are taken in at any depth. -/
lemma firstKept_of_writes {values : List R} {items : List (Json R)}
    (h : List.Forall₂ WritesScalar values items) (room : Nat) : firstKept room items = none := by
  induction h with
  | nil => rfl
  | cons hvalue _ ih =>
    obtain ⟨n, -, rfl⟩ := hvalue
    rw [firstKept, ih, Option.or_none, faultWhenKept]

/-- A written gain is read back. -/
lemma readGain_of_writes {gain : Gain R} {value : Json R} (h : WritesGain gain value) :
    value.readGain = .ok gain := by
  cases gain with
  | uniform v =>
    obtain ⟨n, rfl, rfl⟩ := h
    rw [readGain, faultWhenKept]
  | perCoordinate values =>
    obtain ⟨items, hitems, rfl⟩ := h
    rw [ofItems, readGain, faultWhenKept, if_neg (by decide), firstKept_of_writes hitems]
    change Gain.perCoordinate <$> items.mapM readScalar = _
    rw [mapM_readScalar_of_writes hitems, Outcome.ok_map]

end Scalars

/-- A natural number is written with digits only. -/
def WritesCount (n : Nat) (value : Json R) : Prop := value = .number (.natural n)

/-- A seed is written as a natural number. -/
def WritesSeed (seed : UInt64) (value : Json R) : Prop := WritesCount seed.toNat value

/-- A choice is written by its name. -/
def WritesChoice {α : Type} [Named α] (choice : α) (value : Json R) : Prop :=
  value = .string (Named.name choice)

/-- A written natural number is read back. -/
lemma readCount_of_writes {n : Nat} {value : Json R} (h : WritesCount n value) :
    value.readCount = .ok n := by
  obtain rfl : value = .number (.natural n) := h
  rfl

/-- The name in a document is the name of the choice. -/
lemma writesChoice_documentName {α : Type} [Named α] [LawfulNamed α] (choice : α) :
    WritesChoice choice (.string (Named.documentName choice) : Json R) := by
  rw [WritesChoice, LawfulNamed.documentName_eq choice (LawfulNamed.mem_all choice)]

/-- A written seed is read back. -/
lemma readSeed_of_writes {seed : UInt64} {value : Json R} (h : WritesSeed seed value) :
    value.readSeed = .ok seed := by
  rw [readSeed, readCount_of_writes h, Outcome.ok_map, UInt64.ofNat_toNat]

/-- A written choice is read back. -/
lemma readChoice_of_writes {α : Type} [Named α] [LawfulNamed α] {choice : α} {value : Json R}
    (h : WritesChoice choice value) : value.readChoice = .ok choice := by
  obtain rfl : value = .string (Named.name choice) := h
  exact Named.readChoice_string_eq_ok.2 (Named.parse_eq_ok.2 rfl)

end Json

/-! ## Tables -/

/-- A field of a record that holds a choice. -/
structure ChoiceField (α : Type) : Type 1 where
  /-- The name in an object. -/
  name : String
  /-- The kind of choice. -/
  Choice : Type
  /-- The choice in a record. -/
  get : α → Choice
  /-- A record with another choice. -/
  store : Choice → α → α
  /-- The choices have names. -/
  [named : Named Choice]
  /-- Documents use the same names. -/
  [lawful : LawfulNamed Choice]

attribute [instance] ChoiceField.named ChoiceField.lawful

/-- A choice is written by its name. -/
def ChoiceField.field {α : Type} (c : ChoiceField α) : Json.Field R α :=
  ⟨c.name, c.Choice, c.get, c.store, Json.readChoice, Json.WritesChoice⟩

/-- The choices among the fields of a draft. -/
def Settings.choices : List (ChoiceField (Settings R)) :=
  [⟨"activation", Activation, activation, fun v s => { s with activation := v }⟩,
   ⟨"stopping_criterion", StoppingCriterion, stopping, fun v s => { s with stopping := v }⟩,
   ⟨"direction", DirectionRule, direction, fun v s => { s with direction := v }⟩,
   ⟨"step", StepRule, step, fun v s => { s with step := v }⟩,
   ⟨"initial_ascent", StartAscent, startAscent, fun v s => { s with startAscent := v }⟩,
   ⟨"beta_scope", GainScope, gainScope, fun v s => { s with gainScope := v }⟩]

variable [Scalar R]

/-- The fields of the settings of the dual ascent. -/
def DualAscentSettings.fields : List (Json.Field R (DualAscentSettings R)) :=
  [⟨"tolerance", R, tolerance, fun v s => { s with tolerance := v },
      Json.readScalar, Json.WritesScalar⟩,
   ⟨"max_outer_iterations", Nat, maxOuter, fun v s => { s with maxOuter := v },
      Json.readCount, Json.WritesCount⟩,
   ⟨"max_inner_iterations", Nat, maxInner, fun v s => { s with maxInner := v },
      Json.readCount, Json.WritesCount⟩,
   ⟨"step_decay", R, stepDecay, fun v s => { s with stepDecay := v },
      Json.readScalar, Json.WritesScalar⟩,
   ⟨"initial_dual", R, initialDual, fun v s => { s with initialDual := v },
      Json.readScalar, Json.WritesScalar⟩]

/-- The settings of the dual ascent are written as an object, in which standard values may be left
out. -/
def DualAscentSettings.Writes (s : DualAscentSettings R) (value : Json R) : Prop :=
  ∃ members, Json.Written fields standard s members ∧ value = .ofMembers members

/-- The place of the settings of the dual ascent in a draft. -/
def Settings.dualAscentField : Json.Field R (Settings R) :=
  ⟨"dual_ascent", DualAscentSettings R, dualAscent, fun v s => { s with dualAscent := v },
    DualAscentSettings.ofJson, DualAscentSettings.Writes⟩

/-- The fields of a draft. -/
def Settings.fields : List (Json.Field R (Settings R)) :=
  [⟨"activation", Activation, activation, fun v s => { s with activation := v },
      Json.readChoice, Json.WritesChoice⟩,
   ⟨"gamma", R, gamma, fun v s => { s with gamma := v }, Json.readScalar, Json.WritesScalar⟩,
   ⟨"theta", R, theta, fun v s => { s with theta := v }, Json.readScalar, Json.WritesScalar⟩,
   ⟨"ascent_stop_criterion", Option R, ascentStop, fun v s => { s with ascentStop := v },
      Json.readOptionalScalar, Json.WritesOptional⟩,
   ⟨"absorption_criterion", Option R, absorption, fun v s => { s with absorption := v },
      Json.readOptionalScalar, Json.WritesOptional⟩,
   ⟨"max_iterations", Nat, maxIterations, fun v s => { s with maxIterations := v },
      Json.readCount, Json.WritesCount⟩,
   ⟨"stopping_criterion", StoppingCriterion, stopping, fun v s => { s with stopping := v },
      Json.readChoice, Json.WritesChoice⟩,
   ⟨"direction", DirectionRule, direction, fun v s => { s with direction := v },
      Json.readChoice, Json.WritesChoice⟩,
   ⟨"step", StepRule, step, fun v s => { s with step := v },
      Json.readChoice, Json.WritesChoice⟩,
   ⟨"initial_ascent", StartAscent, startAscent, fun v s => { s with startAscent := v },
      Json.readChoice, Json.WritesChoice⟩,
   ⟨"precision_stopping_criterion", R, precision, fun v s => { s with precision := v },
      Json.readScalar, Json.WritesScalar⟩,
   ⟨"beta", Gain R, gain, fun v s => { s with gain := v }, Json.readGain, Json.WritesGain⟩,
   ⟨"beta_scope", GainScope, gainScope, fun v s => { s with gainScope := v },
      Json.readChoice, Json.WritesChoice⟩,
   dualAscentField,
   ⟨"seed", UInt64, seed, fun v s => { s with seed := v }, Json.readSeed, Json.WritesSeed⟩]

/-- The reader knows the fields of the settings of the dual ascent. -/
lemma DualAscentSettings.members_eq :
    (members : List (Json.Member R _)) = fields.map Json.Field.member := rfl

/-- The reader knows the fields of a draft. -/
lemma Settings.members_eq : (members : List (Json.Member R _)) = fields.map Json.Field.member := rfl

/-- The names in an object of settings of the dual ascent. -/
lemma DualAscentSettings.names_fields : Json.names (fields : List (Json.Field R _)) =
    ["tolerance", "max_outer_iterations", "max_inner_iterations", "step_decay", "initial_dual"] :=
  rfl

/-- The names in an object of settings. -/
lemma Settings.names_fields : Json.names (fields : List (Json.Field R _)) =
    ["activation", "gamma", "theta", "ascent_stop_criterion", "absorption_criterion",
      "max_iterations", "stopping_criterion", "direction", "step", "initial_ascent",
      "precision_stopping_criterion", "beta", "beta_scope", "dual_ascent", "seed"] := rfl

/-- The settings of the dual ascent are their fields. -/
theorem DualAscentSettings.faithful : Json.Faithful (fields : List (Json.Field R _)) where
  nodup := by
    rw [names_fields]
    decide
  get_store := by simp [fields]
  get_store_of_ne := by simp [fields]
  ext s t h := by
    cases s
    cases t
    simpa [fields] using h

/-- A draft is its fields. -/
theorem Settings.faithful : Json.Faithful (fields : List (Json.Field R _)) where
  nodup := by
    rw [names_fields]
    decide
  get_store := by simp [fields, dualAscentField]
  get_store_of_ne := by simp [fields, dualAscentField]
  ext s t h := by
    cases s
    cases t
    simpa [fields, dualAscentField] using h

/-- The settings of the dual ascent are a field of a draft. -/
lemma Settings.dualAscentField_mem : (dualAscentField : Json.Field R _) ∈ fields := by
  simp [fields]

/-- Choices are fields of a draft. -/
lemma Settings.choices_mem : ∀ c ∈ (choices : List (ChoiceField (Settings R))),
    (c.field : Json.Field R _) ∈ fields := by
  simp [choices, fields, ChoiceField.field]

end HopfieldDescent
