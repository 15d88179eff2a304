import Mathlib
import HopfieldDescent.Proofs.Config.Valid

/-!
# Decoding undoes encoding

A configuration may be written as an object in many ways: its members come in any order, standard
values are left out or not, a number stands for a scalar with or without a fraction, and members
with other names may come in between.  All of them are read as the same configuration
(`Config.ofJson_of_written`), since a record is read member by member and each member on its own.
-/

namespace HopfieldDescent

variable {R : Type} [Scalar R]

/-! ## Settings of the dual ascent -/

namespace DualAscentSettings

/-- A written value of the dual ascent is read back. -/
lemma read_of_writes : ∀ f ∈ (fields : List (Json.Field R (DualAscentSettings R))),
    ∀ v value, f.Writes v value → f.read value = .ok v := by
  simp only [fields, List.forall_mem_cons]
  exact ⟨fun _ _ => Json.readScalar_of_writes, fun _ _ => Json.readCount_of_writes,
    fun _ _ => Json.readCount_of_writes, fun _ _ => Json.readScalar_of_writes,
    fun _ _ => Json.readScalar_of_writes, List.forall_mem_nil _⟩

/-- Settings of the dual ascent are read back however they are written. -/
theorem ofJson_of_writes {s : DualAscentSettings R} {value : Json R} (hs : AllHold s.ranges)
    (h : s.Writes value) : ofJson value = .ok s := by
  obtain ⟨members, hwritten, rfl⟩ := h
  refine ofJson_eq_ok.2 ⟨?_, hs⟩
  rw [members_eq]
  exact Json.readRecord_of_written faithful (fun f hf value => read_of_writes f hf _ value) hwritten

/-- The object with all five settings is one of the ways to write them. -/
lemma writes_toJson (s : DualAscentSettings R) : s.Writes s.toJson := by
  refine ⟨_, Json.Written.of_names faithful rfl ?_, rfl⟩
  simp [fields, Json.WritesScalar, Json.WritesCount, Numeral.toScalar]

/-- The order of the members does not matter. -/
theorem ofJson_perm {members members' : List (MemberName × Json R)}
    (hperm : members.Perm members') {ending : Option SyntaxFault} {s : DualAscentSettings R} :
    ofJson (.object members ending) = .ok s ↔ ofJson (.object members' ending) = .ok s := by
  rw [ofJson_eq_ok, ofJson_eq_ok, members_eq, Json.readRecord_perm faithful hperm]

/-- A known name that comes twice is a fault. -/
theorem ofJson_repeated {name : String}
    (hname : name ∈ Json.names (fields : List (Json.Field R (DualAscentSettings R))))
    (before between after : List (MemberName × Json R)) (value value' : Json R)
    (ending : Option SyntaxFault) (s : DualAscentSettings R) :
    ofJson (.object (before ++ (.readable name, value) ::
      (between ++ (.readable name, value') :: after)) ending) ≠ .ok s := by
  rw [Ne, ofJson_eq_ok, members_eq, not_and_or]
  exact .inl (Json.readRecord_repeated faithful hname before between after value value' ending)

end DualAscentSettings

/-! ## Configurations -/

/-- The value for a scalar that may be missing is one of the ways to write it. -/
lemma Json.writesOptional_ofOptionalScalar (v : Option R) :
    Json.WritesOptional v (Json.ofOptionalScalar v) := by
  cases v with
  | none => rfl
  | some v => exact ⟨.real v, rfl, rfl⟩

/-- The value for a gain is one of the ways to write it. -/
lemma Gain.writes_toJson (gain : Gain R) : Json.WritesGain gain gain.toJson := by
  cases gain with
  | uniform v => exact ⟨.real v, rfl, rfl⟩
  | perCoordinate values =>
    refine ⟨_, List.forall₂_map_right_iff.2 (List.forall₂_same.2 fun v _ => ?_), rfl⟩
    exact ⟨.real v, rfl, rfl⟩

/-- A written value is read back, if the settings of the dual ascent are valid. -/
lemma Settings.read_of_writes {s : Settings R} (hs : AllHold s.dualAscent.ranges) :
    ∀ f ∈ fields, ∀ value, f.Writes (f.get s) value → f.read value = .ok (f.get s) := by
  simp only [fields, List.forall_mem_cons]
  exact ⟨fun _ => Json.readChoice_of_writes, fun _ => Json.readScalar_of_writes,
    fun _ => Json.readScalar_of_writes, fun _ => Json.readOptionalScalar_of_writes,
    fun _ => Json.readOptionalScalar_of_writes, fun _ => Json.readCount_of_writes,
    fun _ => Json.readChoice_of_writes, fun _ => Json.readChoice_of_writes,
    fun _ => Json.readChoice_of_writes, fun _ => Json.readChoice_of_writes,
    fun _ => Json.readScalar_of_writes, fun _ => Json.readGain_of_writes,
    fun _ => Json.readChoice_of_writes, fun _ => DualAscentSettings.ofJson_of_writes hs,
    fun _ => Json.readSeed_of_writes, List.forall_mem_nil _⟩

namespace Config

/-- A valid configuration is read back however it is written. -/
theorem ofJson_of_written {config : Config R} {members : List (String × Json R)}
    (hconfig : config.toSettings.Valid)
    (h : Json.Written Settings.fields .standard config.toSettings members) :
    ofJson (.ofMembers members) = .ok config := by
  refine ofJson_eq_ok.2 ⟨?_, hconfig.ranges⟩
  rw [Settings.members_eq]
  exact Json.readRecord_of_written Settings.faithful
    (Settings.read_of_writes hconfig.dualAscent) h

/-- The object with all fifteen settings is one of the ways to write a configuration. -/
lemma written_toJson (config : Config R) : ∃ members, config.toJson = .ofMembers members ∧
    Json.Written Settings.fields .standard config.toSettings members := by
  refine ⟨_, rfl, Json.Written.of_names Settings.faithful rfl ?_⟩
  simp [Settings.fields, Settings.dualAscentField, Json.WritesScalar, Json.WritesCount,
    Json.WritesSeed, Numeral.toScalar, Json.writesChoice_documentName,
    Json.writesOptional_ofOptionalScalar, Gain.writes_toJson, DualAscentSettings.writes_toJson]

/-- What is written for a valid configuration is read back. -/
theorem ofJson_toJson {config : Config R} (hconfig : config.toSettings.Valid) :
    ofJson config.toJson = .ok config := by
  obtain ⟨members, hmembers, hwritten⟩ := config.written_toJson
  rw [hmembers]
  exact ofJson_of_written hconfig hwritten

/-- The order of the members does not matter. -/
theorem ofJson_perm {members members' : List (MemberName × Json R)}
    (hperm : members.Perm members') {ending : Option SyntaxFault} {config : Config R} :
    ofJson (.object members ending) = .ok config ↔
      ofJson (.object members' ending) = .ok config := by
  rw [ofJson_eq_ok, ofJson_eq_ok, Settings.members_eq, Json.readRecord_perm Settings.faithful hperm]

/-- The settings of the dual ascent count only by what is read from their value. -/
theorem ofJson_congr_dualAscent {value value' : Json R}
    (h : ∀ s, DualAscentSettings.ofJson value = .ok s ↔ DualAscentSettings.ofJson value' = .ok s)
    {before after : List (MemberName × Json R)} {ending : Option SyntaxFault}
    {config : Config R} :
    ofJson (.object (before ++ (.readable "dual_ascent", value) :: after) ending) = .ok config ↔
      ofJson (.object (before ++ (.readable "dual_ascent", value') :: after) ending) =
        .ok config := by
  rw [ofJson_eq_ok, ofJson_eq_ok, Settings.members_eq]
  exact and_congr_left fun _ =>
    Json.readRecord_congr Settings.faithful Settings.dualAscentField_mem h

/-- A known name that comes twice is a fault. -/
theorem ofJson_repeated {name : String}
    (hname : name ∈ Json.names (Settings.fields : List (Json.Field R (Settings R))))
    (before between after : List (MemberName × Json R)) (value value' : Json R)
    (ending : Option SyntaxFault) (config : Config R) :
    ofJson (.object (before ++ (.readable name, value) ::
      (between ++ (.readable name, value') :: after)) ending) ≠ .ok config := by
  rw [Ne, ofJson_eq_ok, Settings.members_eq, not_and_or]
  exact .inl
    (Json.readRecord_repeated Settings.faithful hname before between after value value' ending)

/-- Settings of the dual ascent that cannot be read are a fault. -/
theorem ofJson_dualAscent_fault {value : Json R} (h : ∀ s, DualAscentSettings.ofJson value ≠ .ok s)
    (before after : List (MemberName × Json R)) (ending : Option SyntaxFault)
    (config : Config R) :
    ofJson (.object (before ++ (.readable "dual_ascent", value) :: after) ending) ≠ .ok config := by
  rw [Ne, ofJson_eq_ok, Settings.members_eq, not_and_or]
  refine .inl fun hread => ?_
  obtain ⟨-, s, -, hs, -⟩ :=
    (Json.readRecord_insert Settings.faithful Settings.dualAscentField_mem).1 hread
  exact h s hs

/-- No range depends on a choice. -/
lemma ranges_store_choice : ∀ c ∈ (Settings.choices : List (ChoiceField (Settings R))),
    ∀ choice s, (c.store choice s).ranges = s.ranges := by
  simp [Settings.choices, Settings.ranges]

/-- A draft is read from an object with a string for a choice exactly if that is the only member for
the choice, the string is a name, and the rest of the object is read. -/
lemma readRecord_choice {c : ChoiceField (Settings R)} (hc : c ∈ Settings.choices)
    {before after : List (MemberName × Json R)} {text : String} {ending : Option SyntaxFault}
    {s : Settings R} :
    Json.readRecord Settings.members .standard
        (.object (before ++ (.readable c.name, .string text) :: after) ending) = .ok s ↔
      c.name ∉ Json.knownNames Settings.fields (before ++ after) ∧
        ∃ choice rest, Named.parse text = .ok choice ∧
          Json.readRecord Settings.members .standard (.object (before ++ after) ending) =
            .ok rest ∧ s = c.store choice rest := by
  simp only [← Named.readChoice_string_eq_ok (R := R)]
  exact Json.readRecord_insert Settings.faithful (Settings.choices_mem c hc)

/-- A configuration is read from such an object under the same conditions, since no range depends on
a choice, and its choice is the one with that name. -/
theorem ofJson_choice {c : ChoiceField (Settings R)} (hc : c ∈ Settings.choices)
    {before after : List (MemberName × Json R)} {text : String} {ending : Option SyntaxFault}
    {config : Config R} :
    ofJson (.object (before ++ (.readable c.name, .string text) :: after) ending) = .ok config ↔
      c.name ∉ Json.knownNames Settings.fields (before ++ after) ∧
        ∃ choice rest, Named.parse text = .ok choice ∧
          ofJson (.object (before ++ after) ending) = .ok rest ∧
          config = ⟨c.store choice rest.toSettings⟩ := by
  rw [ofJson_eq_ok, readRecord_choice hc]
  constructor
  · rintro ⟨⟨hfresh, choice, rest, hchoice, hrest, hconfig⟩, hranges⟩
    rw [hconfig, ranges_store_choice c hc] at hranges
    exact ⟨hfresh, choice, ⟨rest⟩, hchoice, ofJson_eq_ok.2 ⟨hrest, hranges⟩,
      congrArg Config.mk hconfig⟩
  · rintro ⟨hfresh, choice, rest, hchoice, hrest, rfl⟩
    obtain ⟨hread, hranges⟩ := ofJson_eq_ok.1 hrest
    rw [ranges_store_choice c hc]
    exact ⟨⟨hfresh, choice, rest.toSettings, hchoice, hread, rfl⟩, hranges⟩

end Config

/-- Decoding undoes encoding, in whatever way a valid configuration is written.  In any object the
order of the members does not matter, on both levels; a known name that comes twice is a fault, on
both levels; and with a string for a choice an object is read exactly if the string is accepted as a
name, and then with that choice. -/
theorem documents_decode :
    (∀ (config : Config R) (members : List (String × Json R)), config.toSettings.Valid →
      Json.Written Settings.fields .standard config.toSettings members →
      Config.ofJson (.ofMembers members) = .ok config) ∧
    (∀ config : Config R, config.toSettings.Valid → Config.ofJson config.toJson = .ok config) ∧
    (∀ (members members' : List (MemberName × Json R)) (ending : Option SyntaxFault)
      (config : Config R), members.Perm members' →
      (Config.ofJson (.object members ending) = .ok config ↔
        Config.ofJson (.object members' ending) = .ok config)) ∧
    (∀ (before after members members' : List (MemberName × Json R))
      (ending ending' : Option SyntaxFault) (config : Config R), members.Perm members' →
      (Config.ofJson (.object (before ++ (.readable "dual_ascent", .object members ending) :: after)
          ending') = .ok config ↔
        Config.ofJson (.object
          (before ++ (.readable "dual_ascent", .object members' ending) :: after) ending') =
            .ok config)) ∧
    (∀ name ∈ Json.names (Settings.fields : List (Json.Field R (Settings R))),
      ∀ (before between after : List (MemberName × Json R)) (value value' : Json R)
        (ending : Option SyntaxFault), ∃ fault : ReadFault,
        Config.ofJson (.object (before ++ (.readable name, value) ::
          (between ++ (.readable name, value') :: after)) ending) = .error fault) ∧
    (∀ name ∈ Json.names
        (DualAscentSettings.fields : List (Json.Field R (DualAscentSettings R))),
      ∀ (outer outer' before between after : List (MemberName × Json R)) (value value' : Json R)
        (ending ending' : Option SyntaxFault), ∃ fault : ReadFault,
        Config.ofJson (.object (outer ++ (.readable "dual_ascent", .object (before ++
          (.readable name, value) :: (between ++ (.readable name, value') :: after)) ending) ::
            outer') ending') = .error fault) ∧
    ∀ c ∈ (Settings.choices : List (ChoiceField (Settings R))),
      ∀ (before after : List (MemberName × Json R)) (text : String)
        (ending : Option SyntaxFault) (config : Config R),
        Config.ofJson (.object (before ++ (.readable c.name, .string text) :: after) ending) =
            .ok config ↔
          c.name ∉ Json.knownNames Settings.fields (before ++ after) ∧
            ∃ (choice : c.Choice) (rest : Config R), Named.parse text = .ok choice ∧
              Config.ofJson (.object (before ++ after) ending) = .ok rest ∧
              config = ⟨c.store choice rest.toSettings⟩ := by
  refine ⟨fun _ _ => Config.ofJson_of_written, fun _ => Config.ofJson_toJson,
    fun _ _ _ _ hperm => Config.ofJson_perm hperm, ?_, ?_, ?_, ?_⟩
  · intro before after members members' ending ending' config hperm
    exact Config.ofJson_congr_dualAscent fun _ => DualAscentSettings.ofJson_perm hperm
  · intro name hname before between after value value' ending
    exact Outcome.exists_eq_error
      (Config.ofJson_repeated hname before between after value value' ending)
  · intro name hname outer outer' before between after value value' ending ending'
    exact Outcome.exists_eq_error (Config.ofJson_dualAscent_fault
      (DualAscentSettings.ofJson_repeated hname before between after value value' ending)
      outer outer' ending')
  · intro c hc before after text ending config
    exact Config.ofJson_choice hc

/-- A configuration with one setting on each level that is not standard. -/
def sharpened : Config Float :=
  ⟨{ Settings.standard with
      gamma := 1.0, dualAscent := { DualAscentSettings.standard with maxOuter := 7 } }⟩

/-- Members for its settings of the dual ascent: the others are left out, and one is unknown. -/
lemma written_sharpened_dualAscent :
    Json.Written DualAscentSettings.fields .standard sharpened.dualAscent
      [("max_outer_iterations", .number (.natural 7)), ("note", .ofItems [.bool true])] where
  distinct := by
    rw [DualAscentSettings.names_fields]
    decide
  written := by
    simp [DualAscentSettings.fields, sharpened, Json.WritesCount]
  omitted := by
    simp [DualAscentSettings.fields, sharpened]
  others := by
    rw [DualAscentSettings.names_fields]
    have hnote : (Json.ofItems [.bool true] : Json Float).Intact :=
      .array (by simpa using Json.Intact.bool true)
    simpa using hnote

/-- Members for the configuration: an unknown one in front, the others not in the order of the
settings, and a natural number for a scalar. -/
lemma written_sharpened :
    Json.Written Settings.fields .standard sharpened.toSettings
      [("comment", .null),
       ("dual_ascent", .ofMembers
          [("max_outer_iterations", .number (.natural 7)), ("note", .ofItems [.bool true])]),
       ("direction", .string "binary"),
       ("gamma", .number (.natural 1))] where
  distinct := by
    rw [Settings.names_fields]
    decide
  written := by
    have hgamma : Json.WritesScalar sharpened.gamma (.number (.natural 1)) :=
      ⟨.natural 1, rfl, rfl⟩
    have hdirection : Json.WritesChoice sharpened.direction (.string "binary" : Json Float) := rfl
    have hdualAscent : sharpened.dualAscent.Writes (.ofMembers
        [("max_outer_iterations", .number (.natural 7)), ("note", .ofItems [.bool true])]) :=
      ⟨_, written_sharpened_dualAscent, rfl⟩
    simp [Settings.fields, Settings.dualAscentField, hgamma, hdirection, hdualAscent]
  omitted := by
    simp [Settings.fields, Settings.dualAscentField, sharpened]
  others := by
    rw [Settings.names_fields]
    simpa using Json.Intact.null

/-- The object is read as the configuration. -/
theorem documents_decode_sharpened :
    Config.ofJson (.ofMembers
      [("comment", .null),
       ("dual_ascent", .ofMembers
          [("max_outer_iterations", .number (.natural 7)), ("note", .ofItems [.bool true])]),
       ("direction", .string "binary"),
       ("gamma", .number (.natural 1))]) = .ok sharpened :=
  (documents_decode (R := Float)).1 sharpened _
    ⟨(Settings.build_eq_ok.1 (rfl : sharpened.toSettings.build = .ok sharpened)).1,
      (DualAscentSettings.check_eq_ok.1
        (rfl : sharpened.dualAscent.check = .ok sharpened.dualAscent)).1⟩
    written_sharpened

end HopfieldDescent
