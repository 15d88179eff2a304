import Mathlib
import HopfieldDescent.Config.Session
import HopfieldDescent.Proofs.Config.Accepted
import HopfieldDescent.Proofs.Config.Fields

/-!
# Every configuration is valid

A configuration comes from the standard settings, from a draft that was accepted, or from a
document.  A draft in turn comes from the standard settings, from another draft by one assignment,
from a document, or from a configuration that is opened again.  `Settings.Drafted` and
`Config.Obtained` are these ways, closed under each other, and a session goes no other ways.

A check looks at ranges in a fixed order and reports the first one that is violated
(`Settings.build_eq_error`).  The ranges of the dual ascent are looked at before its settings enter
a draft, and `Settings.build` does not look at them again.  So they hold of every draft, and all
ranges hold of every configuration.
-/

namespace HopfieldDescent

variable {R : Type}

/-! ## Ranges -/

section Ranges

variable {ranges : List (ConfigError × Prop)} {refusal cause : ConfigError} {range : Prop}

/-- Every range in a list holds; each comes with the refusal of what violates it. -/
def AllHold (ranges : List (ConfigError × Prop)) : Prop := ∀ range ∈ ranges, range.2

/-- The first range in a list that is violated has a certain refusal: all ranges before it hold. -/
def FirstViolated (ranges : List (ConfigError × Prop)) (cause : ConfigError) : Prop :=
  ∃ before range after, ranges = before ++ (cause, range) :: after ∧ AllHold before ∧ ¬range

/-- In an empty list no range is violated. -/
lemma not_firstViolated_nil (cause : ConfigError) : ¬FirstViolated [] cause := by
  rintro ⟨before, range, after, hsplit, -⟩
  cases before <;> cases hsplit

/-- The first violated range is the first one, or that one holds and it is among the others. -/
lemma firstViolated_cons : FirstViolated ((refusal, range) :: ranges) cause ↔
    (¬range ∧ cause = refusal) ∨ (range ∧ FirstViolated ranges cause) := by
  constructor
  · rintro ⟨before, range', after, hsplit, hbefore, hviolated⟩
    cases before with
    | nil =>
      obtain ⟨⟨rfl, rfl⟩, rfl⟩ : (refusal = cause ∧ range = range') ∧ ranges = after := by
        simpa using hsplit
      exact .inl ⟨hviolated, rfl⟩
    | cons first before =>
      obtain ⟨rfl, rfl⟩ := List.cons.inj hsplit
      obtain ⟨hfirst, hbefore⟩ := List.forall_mem_cons.1 hbefore
      exact .inr ⟨hfirst, before, range', after, rfl, hbefore, hviolated⟩
  · rintro (⟨hviolated, rfl⟩ | ⟨hfirst, before, range', after, rfl, hbefore, hviolated⟩)
    · exact ⟨[], range, ranges, rfl, nofun, hviolated⟩
    · exact ⟨(refusal, range) :: before, range', after, rfl,
        List.forall_mem_cons.2 ⟨hfirst, hbefore⟩, hviolated⟩

/-- Either all ranges hold, or one of them is violated first. -/
lemma allHold_iff : AllHold ranges ↔ ∀ cause, ¬FirstViolated ranges cause := by
  induction ranges with
  | nil => exact ⟨fun _ => not_firstViolated_nil, fun _ => nofun⟩
  | cons first ranges ih =>
    obtain ⟨refusal, range⟩ := first
    rw [AllHold, List.forall_mem_cons]
    simp only [firstViolated_cons, not_or, not_and]
    constructor
    · rintro ⟨hrange, hranges⟩ cause
      exact ⟨fun hviolated => absurd hrange hviolated, fun _ => ih.1 hranges cause⟩
    · intro h
      have hrange : range := by_contra fun hviolated => (h refusal).1 hviolated rfl
      exact ⟨hrange, ih.2 fun cause => (h cause).2 hrange⟩

/-- A check that refuses what violates a range and leaves the rest to later checks puts its range in
front of theirs. -/
lemma refuse_eq_error {α : Type} {violates : Prop} [Decidable violates]
    {rest : Except ConfigError α} (h : violates ↔ ¬range)
    (hrest : rest = .error cause ↔ FirstViolated ranges cause) :
    (if violates then .error refusal else rest) = .error cause ↔
      FirstViolated ((refusal, range) :: ranges) cause := by
  rw [firstViolated_cons, ← hrest]
  by_cases hrange : range
  · simp [h, hrange]
  · simp [h, hrange, eq_comm]

/-- Behind the last check nothing is refused. -/
lemma accept_eq_error {α : Type} {accepted : α} :
    (.ok accepted : Except ConfigError α) = .error cause ↔ FirstViolated [] cause := by
  simp [not_firstViolated_nil]

/-- What is refused for the first violated range is accepted where all ranges hold. -/
lemma exists_ok_iff {α : Type} {x : Except ConfigError α}
    (h : ∀ cause, x = .error cause ↔ FirstViolated ranges cause) :
    (∃ accepted, x = .ok accepted) ↔ AllHold ranges := by
  rw [allHold_iff]
  simp only [← h]
  cases x <;> simp

end Ranges

variable [Scalar R]

/-- The ranges of the settings of the dual ascent, in the order in which they are looked at. -/
def DualAscentSettings.ranges (s : DualAscentSettings R) : List (ConfigError × Prop) :=
  [(.dualTolerance, Scalar.isFinite s.tolerance = true ∧ 0.0 < s.tolerance),
   (.dualIterations, 1 ≤ s.maxOuter ∧ 1 ≤ s.maxInner),
   (.dualDecay, 0.0 < s.stepDecay ∧ s.stepDecay ≤ 1.0),
   (.initialDual, Scalar.isFinite s.initialDual = true)]

/-- The gains, one or many. -/
def Gain.values : Gain R → List R
  | .uniform value => [value]
  | .perCoordinate values => values

/-- The ranges of the settings, in the order in which they are looked at. -/
def Settings.ranges (s : Settings R) : List (ConfigError × Prop) :=
  [(.gamma, 0.0 ≤ s.gamma ∧ s.gamma ≤ 1.0),
   (.theta, 0.0 ≤ s.theta ∧ s.theta ≤ 1.0),
   (.ascentStop, ∀ v ∈ s.ascentStop, Scalar.isFinite v = true ∧ 0.0 ≤ v),
   (.absorption, ∀ v ∈ s.absorption, Scalar.isFinite v = true ∧ 0.0 ≤ v),
   (.maxIterations, 1 ≤ s.maxIterations),
   (.precision, Scalar.isFinite s.precision = true ∧ 0.0 < s.precision),
   (.gain, ∀ v ∈ s.gain.values, Scalar.isFinite v = true ∧ 0.0 < v)]

/-- Every setting lies in its range, those of the dual ascent included. -/
structure Settings.Valid (s : Settings R) : Prop where
  /-- The settings that are looked at when a draft is accepted. -/
  ranges : AllHold s.ranges
  /-- The settings of the dual ascent. -/
  dualAscent : AllHold s.dualAscent.ranges

/-! ## Checks -/

namespace Scalar

lemma inUnitInterval_iff {v : R} : inUnitInterval v = true ↔ 0.0 ≤ v ∧ v ≤ 1.0 := by
  simp [inUnitInterval]

lemma isPositive_iff {v : R} : isPositive v = true ↔ isFinite v = true ∧ 0.0 < v := by
  simp [isPositive]

lemma all_isNonnegative_iff {v : Option R} :
    v.all isNonnegative = true ↔ ∀ a ∈ v, isFinite a = true ∧ 0.0 ≤ a := by
  cases v <;> simp [isNonnegative]

end Scalar

/-- Every gain is positive. -/
lemma Gain.isPositive_iff {gain : Gain R} :
    gain.isPositive = true ↔ ∀ v ∈ gain.values, Scalar.isFinite v = true ∧ 0.0 < v := by
  cases gain <;> simp [Gain.isPositive, values, Scalar.isPositive_iff]

/-- A draft is refused for the first range that it violates. -/
theorem Settings.build_eq_error {s : Settings R} {cause : ConfigError} :
    s.build = .error cause ↔ FirstViolated s.ranges cause := by
  unfold build ranges
  refine refuse_eq_error ?_ <| refuse_eq_error ?_ <| refuse_eq_error ?_ <| refuse_eq_error ?_ <|
    refuse_eq_error ?_ <| refuse_eq_error ?_ <| refuse_eq_error ?_ accept_eq_error
  · rw [← Scalar.inUnitInterval_iff, Bool.not_eq_true', Bool.not_eq_true]
  · rw [← Scalar.inUnitInterval_iff, Bool.not_eq_true', Bool.not_eq_true]
  · rw [← Scalar.all_isNonnegative_iff, Bool.not_eq_true', Bool.not_eq_true]
  · rw [← Scalar.all_isNonnegative_iff, Bool.not_eq_true', Bool.not_eq_true]
  · omega
  · rw [← Scalar.isPositive_iff, Bool.not_eq_true', Bool.not_eq_true]
  · rw [← Gain.isPositive_iff, Bool.not_eq_true', Bool.not_eq_true]

/-- A draft is accepted, unchanged, exactly if all of its ranges hold. -/
theorem Settings.build_eq_ok {s : Settings R} {config : Config R} :
    s.build = .ok config ↔ AllHold s.ranges ∧ config = s.assemble := by
  have hexists := exists_ok_iff fun _ => s.build_eq_error
  constructor
  · intro h
    obtain ⟨rfl, -⟩ := inRange_of_build h
    exact ⟨hexists.1 ⟨config, h⟩, rfl⟩
  · rintro ⟨hranges, rfl⟩
    obtain ⟨config, hbuild⟩ := hexists.2 hranges
    obtain ⟨rfl, -⟩ := inRange_of_build hbuild
    exact hbuild

/-- Settings of the dual ascent are refused for the first range that they violate. -/
theorem DualAscentSettings.check_eq_error {s : DualAscentSettings R} {cause : ConfigError} :
    s.check = .error cause ↔ FirstViolated s.ranges cause := by
  unfold check ranges
  refine refuse_eq_error ?_ <| refuse_eq_error ?_ <| refuse_eq_error ?_ <| refuse_eq_error ?_
    accept_eq_error
  · rw [← Scalar.isPositive_iff, Bool.not_eq_true', Bool.not_eq_true]
  · omega
  · rw [← Bool.decide_and, Bool.not_eq_true', decide_eq_false_iff_not]
  · rw [Bool.not_eq_true', Bool.not_eq_true]

/-- Settings of the dual ascent are accepted, unchanged, exactly if all of their ranges hold. -/
theorem DualAscentSettings.check_eq_ok {s accepted : DualAscentSettings R} :
    s.check = .ok accepted ↔ AllHold s.ranges ∧ accepted = s := by
  have hexists := exists_ok_iff fun _ => s.check_eq_error
  constructor
  · intro h
    exact ⟨hexists.1 ⟨accepted, h⟩, (inRange_of_check h).1⟩
  · rintro ⟨hranges, rfl⟩
    obtain ⟨t, h⟩ := hexists.2 hranges
    rw [h, (inRange_of_check h).1]

/-! ## Where configurations come from -/

mutual

/-- The drafts that can come up. -/
inductive Settings.Drafted : Settings R → Prop
  /-- The standard settings. -/
  | standard : Settings.Drafted .standard
  /-- A draft with one setting replaced. -/
  | assign {s s' : Settings R} {assignment : Assignment R} (drafted : Settings.Drafted s)
      (taken : s.assign assignment = .ok s') : Settings.Drafted s'
  /-- A configuration that is opened again. -/
  | reopen {config : Config R} (obtained : Config.Obtained config) : Settings.Drafted config.reopen
  /-- The settings in a document. -/
  | read {value : Json R} {s : Settings R}
      (read : Json.readRecord Settings.members .standard value = .ok s) : Settings.Drafted s

/-- The configurations that can come up. -/
inductive Config.Obtained : Config R → Prop
  /-- The standard configuration. -/
  | standard : Config.Obtained .standard
  /-- A draft that was accepted. -/
  | build {s : Settings R} {config : Config R} (drafted : Settings.Drafted s)
      (accepted : s.build = .ok config) : Config.Obtained config
  /-- The configuration in a document. -/
  | ofJson {value : Json R} {config : Config R} (read : Config.ofJson value = .ok config) :
      Config.Obtained config

end

/-- A refusal met while reading stays a refusal. -/
lemma ReadFault.ofRefusal_eq_ok {α : Type} {x : Except ConfigError α} {a : α} :
    ReadFault.ofRefusal x = .ok a ↔ x = .ok a := by
  cases x <;> simp [ReadFault.ofRefusal]

/-- Settings of the dual ascent in a document are the ones that are read, with all ranges kept. -/
lemma DualAscentSettings.ofJson_eq_ok {value : Json R} {s : DualAscentSettings R} :
    ofJson value = .ok s ↔
      Json.readRecord members .standard value = .ok s ∧ AllHold s.ranges := by
  simp only [ofJson, Outcome.bind_eq_ok, ReadFault.ofRefusal_eq_ok, check_eq_ok]
  constructor
  · rintro ⟨read, hread, hranges, rfl⟩
    exact ⟨hread, hranges⟩
  · rintro ⟨hread, hranges⟩
    exact ⟨s, hread, hranges, rfl⟩

/-- A configuration in a document is the draft that is read, with all ranges kept. -/
lemma Config.ofJson_eq_ok {value : Json R} {config : Config R} :
    ofJson value = .ok config ↔
      Json.readRecord Settings.members .standard value = .ok config.toSettings ∧
        AllHold config.toSettings.ranges := by
  simp only [ofJson, Outcome.bind_eq_ok, ReadFault.ofRefusal_eq_ok, Settings.build_eq_ok]
  constructor
  · rintro ⟨read, hread, hranges, rfl⟩
    exact ⟨hread, hranges⟩
  · rintro ⟨hread, hranges⟩
    exact ⟨config.toSettings, hread, hranges, rfl⟩

/-- Settings of the dual ascent are looked at before they enter a draft by an assignment. -/
lemma Settings.dualAscent_of_assign {s s' : Settings R} {assignment : Assignment R}
    (hs : AllHold s.dualAscent.ranges) (h : s.assign assignment = .ok s') :
    AllHold s'.dualAscent.ranges := by
  cases assignment with
  | dualAscent value =>
    obtain ⟨accepted, hcheck, h⟩ := Outcome.bind_eq_ok.1 h
    obtain rfl := Outcome.pure_eq_ok.1 h
    obtain ⟨hranges, rfl⟩ := DualAscentSettings.check_eq_ok.1 hcheck
    exact hranges
  | activation | direction | step | startAscent | stopping | gainScope =>
    obtain ⟨choice, -, h⟩ := Outcome.bind_eq_ok.1 h
    obtain rfl := Outcome.pure_eq_ok.1 h
    exact hs
  | gamma | theta | ascentStop | absorption | maxIterations | precision | gain | seed =>
    obtain rfl := Except.ok.inj h
    exact hs

/-- Of the members of a document, only one touches the settings of the dual ascent. -/
lemma Settings.dualAscent_of_readRecord {value : Json R} {s : Settings R}
    (hstandard : AllHold (DualAscentSettings.standard : DualAscentSettings R).ranges)
    (h : Json.readRecord members .standard value = .ok s) : AllHold s.dualAscent.ranges := by
  refine Json.invariant_of_readRecord (P := fun s : Settings R => AllHold s.dualAscent.ranges)
    ?_ hstandard h
  rw [members_eq]
  intro member hmember value change hchange s hs
  obtain ⟨f, hf, rfl⟩ := List.mem_map.1 hmember
  obtain ⟨v, hread, rfl⟩ := Outcome.map_eq_ok.1 hchange
  by_cases hname : f.name = (dualAscentField : Json.Field R _).name
  · obtain rfl := faithful.eq_of_name hf dualAscentField_mem hname
    exact (DualAscentSettings.ofJson_eq_ok.1 hread).2
  · have hother : (f.store v s).dualAscent = s.dualAscent :=
      faithful.get_store_of_ne f hf _ dualAscentField_mem (Ne.symm hname) v s
    rwa [hother]

section Obtained

variable (hstandard : (Settings.standard : Settings R).Valid)
include hstandard

mutual

/-- The settings of the dual ascent are valid in every draft. -/
theorem Settings.Drafted.dualAscent {s : Settings R} :
    s.Drafted → AllHold s.dualAscent.ranges
  | .standard => hstandard.dualAscent
  | .assign drafted taken => Settings.dualAscent_of_assign drafted.dualAscent taken
  | .reopen obtained => obtained.valid.dualAscent
  | .read read => Settings.dualAscent_of_readRecord hstandard.dualAscent read

/-- Every configuration is valid. -/
theorem Config.Obtained.valid {config : Config R} : config.Obtained → config.toSettings.Valid
  | .standard => hstandard
  | .build drafted accepted => by
    obtain ⟨hranges, rfl⟩ := Settings.build_eq_ok.1 accepted
    exact ⟨hranges, drafted.dualAscent⟩
  | .ofJson read => by
    obtain ⟨hread, hranges⟩ := Config.ofJson_eq_ok.1 read
    exact ⟨hranges, Settings.dualAscent_of_readRecord hstandard.dualAscent hread⟩

end

end Obtained

/-! ## Sessions and texts -/

/-- What a session holds can come up. -/
structure Session.Sound (session : Session R) : Prop where
  /-- The draft. -/
  draft : session.draft.Drafted
  /-- The configuration to go back to. -/
  accepted : ∀ config ∈ session.accepted, config.Obtained

/-- An edit keeps a session sound, whether it is made or refused, and a configuration in the answer
can come up. -/
lemma Session.Sound.edit {session : Session R} (h : session.Sound) (e : Edit R) :
    (session.edit e).1.Sound ∧
      ∀ config, (session.edit e).2 = .accepted config → config.Obtained := by
  cases e with
  | assign assignment =>
    cases htaken : session.draft.assign assignment with
    | error cause =>
      have hedit : session.edit (.assign assignment) = (session, .refused cause) := by
        rw [Session.edit, htaken]
      rw [hedit]
      exact ⟨h, fun _ hconfig => nomatch hconfig⟩
    | ok draft =>
      have hedit : session.edit (.assign assignment) = ({ session with draft }, .done) := by
        rw [Session.edit, htaken]
      rw [hedit]
      exact ⟨⟨h.draft.assign htaken, h.accepted⟩, fun _ hconfig => nomatch hconfig⟩
  | build =>
    cases hbuild : session.draft.build with
    | error cause =>
      have hedit : session.edit .build = (session, .refused cause) := by
        rw [Session.edit, hbuild]
      rw [hedit]
      exact ⟨h, fun _ hconfig => nomatch hconfig⟩
    | ok config =>
      have hedit : session.edit .build =
          ({ session with accepted := some config }, .accepted config) := by
        rw [Session.edit, hbuild]
      have hobtained : config.Obtained := .build h.draft hbuild
      rw [hedit]
      constructor
      · exact ⟨h.draft, fun _ hconfig => Option.some.inj hconfig ▸ hobtained⟩
      · intro _ hconfig
        exact Reply.accepted.inj hconfig ▸ hobtained
  | reopen =>
    cases haccepted : session.accepted with
    | none =>
      have hedit : session.edit .reopen = (session, .nothing) := by
        rw [Session.edit, haccepted]
      rw [hedit]
      exact ⟨h, fun _ hconfig => nomatch hconfig⟩
    | some config =>
      have hedit : session.edit .reopen = ({ session with draft := config.reopen }, .done) := by
        rw [Session.edit, haccepted]
      rw [hedit]
      exact ⟨⟨.reopen (h.accepted config haccepted), h.accepted⟩, fun _ hconfig => nomatch hconfig⟩
  | reset => exact ⟨⟨.standard, h.accepted⟩, fun _ hconfig => nomatch hconfig⟩

/-- A sound session stays so through any edits, and every configuration in the answers can come
up. -/
theorem Session.Sound.editAll {session : Session R} (h : session.Sound) (edits : List (Edit R)) :
    (session.editAll edits).1.Sound ∧
      ∀ config, .accepted config ∈ (session.editAll edits).2 → config.Obtained := by
  induction edits generalizing session with
  | nil => exact ⟨h, fun _ hconfig => nomatch hconfig⟩
  | cons e edits ih =>
    obtain ⟨hnext, hreply⟩ := h.edit e
    obtain ⟨hfinal, hreplies⟩ := ih hnext
    refine ⟨hfinal, fun config hconfig => ?_⟩
    rcases List.mem_cons.1 hconfig with hfirst | hlater
    · exact hreply config hfirst.symm
    · exact hreplies config hlater

/-- A session starts sound. -/
lemma Session.sound_fresh : (Session.fresh : Session R).Sound :=
  ⟨.standard, fun _ hconfig => nomatch hconfig⟩

/-- The configuration in a text is the one in its value. -/
lemma Config.obtained_of_ofText {text : String} {config : Config Float}
    (h : Config.ofText text = .ok config) : config.Obtained := by
  obtain ⟨read, hread, h⟩ := Outcome.bind_eq_ok.1 h
  split_ifs at h
  obtain rfl := Except.ok.inj h
  exact .ofJson hread

/-- The standard settings are valid in double precision. -/
lemma Settings.valid_standard : (Settings.standard : Settings Float).Valid where
  ranges := (build_eq_ok.1 (rfl : (standard : Settings Float).build = .ok standard.assemble)).1
  dualAscent := (DualAscentSettings.check_eq_ok.1
    (rfl : (DualAscentSettings.standard : DualAscentSettings Float).check = .ok .standard)).1

/-- Every configuration that can come up is valid, and opened again it is accepted as itself.
Sessions and texts lead to no others, whatever is edited or refused on the way.  Conversely a draft
is accepted, unchanged, if all its ranges hold, and otherwise it is refused for the first range that
it violates. -/
theorem configurations_valid :
    (∀ config : Config Float, config.Obtained →
      config.toSettings.Valid ∧ config.reopen.build = .ok config) ∧
    (∀ edits : List (Edit Float),
      (∀ config ∈ (Session.fresh.editAll edits).1.accepted, config.Obtained) ∧
        ∀ config, .accepted config ∈ (Session.fresh.editAll edits).2 → config.Obtained) ∧
    (∀ text config, Config.ofText text = .ok config → config.Obtained) ∧
    ∀ s : Settings Float, (AllHold s.ranges → s.build = .ok ⟨s⟩) ∧
      ∀ cause, s.build = .error cause ↔ FirstViolated s.ranges cause := by
  refine ⟨fun config h => ?_, fun edits => ?_, fun _ _ => Config.obtained_of_ofText,
    fun s => ⟨fun h => Settings.build_eq_ok.2 ⟨h, rfl⟩, fun cause => s.build_eq_error⟩⟩
  · have hvalid := h.valid Settings.valid_standard
    exact ⟨hvalid, Settings.build_eq_ok.2 ⟨hvalid.ranges, rfl⟩⟩
  · obtain ⟨hfinal, hreplies⟩ := Session.sound_fresh.editAll edits
    exact ⟨hfinal.accepted, hreplies⟩

/-- Of two settings out of range the first one is reported, and once they are corrected the draft of
the same session is accepted. -/
theorem configurations_valid_after_refusal :
    ({ (Settings.standard : Settings Float) with gamma := 2.0, theta := 5.0 }).build =
        .error .gamma ∧
      ∃ config : Config Float, .accepted config ∈ (Session.fresh.editAll
          [.assign (.gamma 2.0), .assign (.theta 5.0), .build, .assign (.gamma 0.5),
            .assign (.theta 0.25), .build]).2 ∧
        config.gamma = 0.5 ∧ config.toSettings.Valid ∧ config.reopen.build = .ok config := by
  obtain ⟨hvalid, hsession, -, hdraft⟩ := configurations_valid
  refine ⟨((hdraft _).2 .gamma).2 ⟨[], _, _, rfl, nofun, by decide⟩, ?_⟩
  have hmem : Reply.accepted ⟨{ (Settings.standard : Settings Float) with
      gamma := 0.5, theta := 0.25 }⟩ ∈ (Session.fresh.editAll
        [.assign (.gamma 2.0), .assign (.theta 5.0), .build, .assign (.gamma 0.5),
          .assign (.theta 0.25), .build]).2 :=
    List.mem_of_getElem? (i := 5) rfl
  exact ⟨_, hmem, rfl, hvalid _ ((hsession _).2 _ hmem)⟩

end HopfieldDescent
