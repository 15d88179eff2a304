import Mathlib
import HopfieldDescent.Problem.Setup
import HopfieldDescent.Proofs.Vec.Pairing

/-!
# What setting up a problem guarantees

A problem that comes out of `setup` has gone through all of its checks.  `Problem.WellFormed`
collects what they leave behind: lengths that fit, bounds that enclose an interval in every
coordinate, positive gains, a positive smoothness coefficient, penalties in their ranges, and blocks
and duals that suit the variables.  Nothing here depends on the arithmetic of the scalars.

Each check has one lemma that reads its success; `setup_eq_ok` takes `setup` apart into them.
-/

namespace HopfieldDescent

variable {R : Type}

/-! ## What a single check leaves behind -/

/-- The shape of a block of constraints on `n` variables. -/
structure ConstraintBlock.Fits [Scalar R] (block : ConstraintBlock R) (n : Nat) : Prop where
  /-- Every row has a coefficient for each variable. -/
  width_eq : block.width = n
  /-- Every row has a right-hand side. -/
  length_rhs : block.rhs.length = block.height
  /-- There is a row. -/
  height_ne_zero : block.height ≠ 0
  /-- The coefficients and the right-hand sides are finite. -/
  isFinite : Vec.isFinite block.matrix.entries = true ∧ Vec.isFinite block.rhs = true

/-- Supplied duals belong to a block, one finite number for each of its rows. -/
def ConstraintBlock.AcceptsDual [Scalar R] (block : Option (ConstraintBlock R))
    (dual : Option (Vec R)) : Prop :=
  ∀ values ∈ dual, ∃ b ∈ block, values.length = b.height ∧ Vec.isFinite values = true

namespace Definition

variable [Scalar R]

omit [Scalar R] in
/-- A checked mask has an entry for each entry of the mask. -/
lemma length_of_checkMask {mask : List Nat} {binary : List Bool}
    (h : checkMask (R := R) mask = .ok binary) : binary.length = mask.length := by
  unfold checkMask at h
  split at h
  · cases h
  · obtain rfl := Except.ok.inj h
    rw [List.length_map]

/-- A checked block suits the variables. -/
lemma fits_of_checkBlock {kind : ConstraintKind} {n : Nat}
    {given : Option (DenseMatrix R × Vec R)} {checked : Option (ConstraintBlock R)}
    (h : checkBlock kind n given = .ok checked) : ∀ block ∈ checked, block.Fits n := by
  rcases given with _ | ⟨matrix, rhs⟩
  · obtain rfl := Except.ok.inj h
    rintro block ⟨⟩
  · simp only [checkBlock] at h
    split at h
    · cases h
    · rename_i block hblock
      split at h
      · cases h
      · rename_i hcolumns
        obtain rfl := Except.ok.inj h
        rintro _ ⟨⟩
        unfold ConstraintBlock.ofSystem at hblock
        split_ifs at hblock with hrows hempty hfinite
        obtain rfl := Except.ok.inj hblock
        have hwidth : (ConstraintBlock.mk matrix rhs).width = n := by
          by_contra hne
          simp [ConstraintBlock.checkColumns, hne] at hcolumns
        simp only [Bool.not_eq_true', Bool.not_eq_false, Bool.and_eq_true] at hfinite
        exact ⟨hwidth, (not_not.1 hrows).symm, hempty, hfinite⟩

/-- Checked duals belong to a block and suit its rows. -/
lemma acceptsDual_of_checkDual {kind : ConstraintKind} {block : Option (ConstraintBlock R)}
    {dual checked : Option (Vec R)} (h : checkDual kind block dual = .ok checked) :
    ConstraintBlock.AcceptsDual block checked := by
  intro values hvalues
  rcases dual with _ | dual
  · obtain rfl := Except.ok.inj h
    cases hvalues
  · rcases block with _ | block
    · obtain rfl := Except.ok.inj h
      cases hvalues
    · simp only [checkDual, Outcome.ite_error_eq_ok] at h
      obtain ⟨⟨hlength, hfinite⟩, hchecked⟩ := h
      obtain rfl := Except.ok.inj hchecked
      obtain rfl := Option.some.inj hvalues
      exact ⟨block, rfl, hlength, hfinite⟩

/-- The mask of a definition; without one no variable is binary. -/
def maskOrNone (definition : Definition R) : List Nat :=
  definition.mask.getD (List.replicate definition.lower.length 0)

/-- A definition passes every check, and the frame holds what they return. -/
structure Passes (definition : Definition R) (frame : Frame R) : Prop where
  /-- The mask has an entry for each variable. -/
  length_mask : definition.maskOrNone.length = definition.lower.length
  /-- There are as many upper bounds as lower ones. -/
  length_upper : definition.upper.length = definition.lower.length
  /-- No pair of bounds is bad. -/
  bounds : badBounds? definition.lower definition.upper = none
  /-- The mask is one of zeros and ones. -/
  mask : checkMask (R := R) definition.maskOrNone = .ok frame.binary
  /-- The equations are a block. -/
  equalities :
    checkBlock .equality definition.lower.length definition.equalities = .ok frame.equalities
  /-- The inequalities are a block. -/
  inequalities :
    checkBlock .inequality definition.lower.length definition.inequalities =
      .ok frame.inequalities
  /-- The penalty on equations is in range. -/
  equalityPenalty : checkPenalty .equality false definition.equalityPenalty = .ok ()
  /-- The penalty on inequalities is in range. -/
  inequalityPenalty :
    checkPenalty .inequality frame.inequalities.isSome definition.inequalityPenalty = .ok ()
  /-- The duals of the equations suit them. -/
  equalityDual :
    checkDual .equality frame.equalities definition.equalityDual = .ok frame.equalityDual
  /-- The duals of the inequalities suit them. -/
  inequalityDual :
    checkDual .inequality frame.inequalities definition.inequalityDual = .ok frame.inequalityDual
  /-- A given point has an entry for each variable. -/
  start : checkStart definition.lower.length definition.start = .ok ()

/-- Looking over a definition succeeds when it passes every check. -/
lemma frame_eq_ok {definition : Definition R} {frame : Frame R} :
    definition.frame = .ok frame ↔ Passes definition frame := by
  unfold Definition.frame
  dsimp only
  split_ifs with hlength
  · refine ⟨fun h => absurd h Outcome.throw_bind_ne_ok, fun h => ?_⟩
    exact absurd hlength (not_or.2 ⟨not_not.2 h.length_mask, not_not.2 h.length_upper⟩)
  · obtain ⟨hmask, hupper⟩ := not_or.1 hlength
    split
    · rename_i index hbounds
      refine ⟨fun h => absurd h Outcome.throw_bind_ne_ok, fun h => ?_⟩
      cases hbounds.symm.trans h.bounds
    · rename_i hbounds
      simp only [Outcome.bind_eq_ok, Outcome.pure_eq_ok]
      constructor
      · rintro ⟨binary, hbinary, equalities, heq, inequalities, hineq, _, hpenalty, _, hpenalty',
          dual, hdual, dual', hdual', _, hstart, rfl⟩
        exact ⟨not_not.1 hmask, not_not.1 hupper,
          Option.eq_none_iff_forall_ne_some.2 fun index hindex => hbounds index hindex,
          hbinary, heq, hineq, hpenalty, hpenalty', hdual, hdual', hstart⟩
      · rintro ⟨-, -, -, hbinary, heq, hineq, hpenalty, hpenalty', hdual, hdual', hstart⟩
        exact ⟨_, hbinary, _, heq, _, hineq, _, hpenalty, _, hpenalty', _, hdual, _, hdual', _,
          hstart, rfl⟩

/-- What looking over a definition establishes. -/
structure Framed (definition : Definition R) (frame : Frame R) : Prop where
  /-- There are as many upper bounds as lower ones. -/
  length_upper : definition.upper.length = definition.lower.length
  /-- Each pair of bounds encloses an interval. -/
  bounds : ∀ pair ∈ List.zip definition.lower definition.upper,
    boundsEnclose pair.1 pair.2 = true
  /-- Every variable is binary or not. -/
  length_binary : frame.binary.length = definition.lower.length
  /-- The equations suit the variables. -/
  equalities : ∀ block ∈ frame.equalities, block.Fits definition.lower.length
  /-- The inequalities suit the variables. -/
  inequalities : ∀ block ∈ frame.inequalities, block.Fits definition.lower.length
  /-- The penalty on equations is in range. -/
  equalityPenalty : checkPenalty .equality false definition.equalityPenalty = .ok ()
  /-- The penalty on inequalities is in range. -/
  inequalityPenalty :
    checkPenalty .inequality frame.inequalities.isSome definition.inequalityPenalty = .ok ()
  /-- The duals of the equations suit them. -/
  equalityDual : ConstraintBlock.AcceptsDual frame.equalities frame.equalityDual
  /-- The duals of the inequalities suit them. -/
  inequalityDual : ConstraintBlock.AcceptsDual frame.inequalities frame.inequalityDual

/-- A definition that has been looked over has gone through every check. -/
theorem framed_of_frame {definition : Definition R} {frame : Frame R}
    (h : definition.frame = .ok frame) : Framed definition frame := by
  have hpasses := frame_eq_ok.1 h
  refine ⟨hpasses.length_upper, ?_, ?_, fits_of_checkBlock hpasses.equalities,
    fits_of_checkBlock hpasses.inequalities, hpasses.equalityPenalty, hpasses.inequalityPenalty,
    acceptsDual_of_checkDual hpasses.equalityDual, acceptsDual_of_checkDual hpasses.inequalityDual⟩
  · intro pair hpair
    have := List.findIdx?_eq_none_iff.1 hpasses.bounds pair hpair
    simpa using this
  · rw [length_of_checkMask hpasses.mask, hpasses.length_mask]

end Definition

/-- Resolved gains are positive, one for each variable. -/
lemma Config.gains_of_coordinateGains [Scalar R] {config : Config R} {binary : List Bool}
    {gains : Vec R} (h : config.coordinateGains binary = .ok gains) :
    gains.length = binary.length ∧ ∀ gain ∈ gains, Scalar.isPositive gain = true := by
  unfold Config.coordinateGains at h
  split at h
  · rename_i requested hrequested
    rw [Outcome.ite_error_eq_ok, List.all_eq_true] at h
    obtain ⟨hpositive, hrequested'⟩ := h
    obtain rfl := Except.ok.inj hrequested'
    refine ⟨?_, hpositive⟩
    unfold Config.requestedGains at hrequested
    split at hrequested
    · obtain rfl := Option.some.inj hrequested
      rw [List.length_map]
    · split_ifs at hrequested with hlength
      obtain rfl := Option.some.inj hrequested
      exact hlength
  · cases h

/-! ## The problem as a whole -/

/-- What every problem that has been set up satisfies. -/
structure Problem.WellFormed [Scalar R] (problem : Problem R) : Prop where
  /-- There are as many upper bounds as variables. -/
  length_upper : problem.upper.length = problem.dimension
  /-- Each pair of bounds encloses an interval. -/
  bounds : ∀ pair ∈ List.zip problem.lower problem.upper,
    Definition.boundsEnclose pair.1 pair.2 = true
  /-- The midpoint is half way between the bounds. -/
  midpoint_eq : boxMidpoint problem.lower problem.upper = .ok problem.midpoint
  /-- Every variable is binary or not. -/
  length_binary : problem.binary.length = problem.dimension
  /-- The equations suit the variables. -/
  equalities : ∀ block ∈ problem.equalities, block.Fits problem.dimension
  /-- The inequalities suit the variables. -/
  inequalities : ∀ block ∈ problem.inequalities, block.Fits problem.dimension
  /-- The penalty on equations is in range. -/
  equalityPenalty :
    Definition.checkPenalty .equality false problem.equalityPenalty = .ok ()
  /-- The penalty on inequalities is in range. -/
  inequalityPenalty :
    Definition.checkPenalty .inequality problem.inequalities.isSome problem.inequalityPenalty =
      .ok ()
  /-- The smoothness coefficient is a positive number. -/
  smoothness_isPositive : Scalar.isPositive problem.smoothness = true
  /-- The start point has an entry for each variable. -/
  length_start : problem.start.length = problem.dimension
  /-- There is a gain for each variable. -/
  length_gain : problem.gain.length = problem.dimension
  /-- Every gain is a positive number. -/
  gain_isPositive : ∀ gain ∈ problem.gain, Scalar.isPositive gain = true
  /-- The duals of the equations suit them. -/
  equalityDual : ConstraintBlock.AcceptsDual problem.equalities problem.equalityDual
  /-- The duals of the inequalities suit them. -/
  inequalityDual : ConstraintBlock.AcceptsDual problem.inequalities problem.inequalityDual

/-- Two bounds of a coordinate are in order. -/
lemma Problem.WellFormed.lower_lt_upper [Scalar R] {problem : Problem R}
    (hproblem : problem.WellFormed) {i : Nat} {l u : R} (hl : problem.lower[i]? = some l)
    (hu : problem.upper[i]? = some u) : l < u := by
  have hpair : (l, u) ∈ List.zip problem.lower problem.upper :=
    List.mem_of_getElem? (List.getElem?_zip_eq_some.2 ⟨hl, hu⟩)
  have henclose := hproblem.bounds (l, u) hpair
  simp only [Definition.boundsEnclose, Bool.and_eq_true, decide_eq_true_eq] at henclose
  exact henclose.2

/-- The midpoint has an entry for each variable. -/
lemma Problem.WellFormed.length_midpoint [Scalar R] {problem : Problem R}
    (hproblem : problem.WellFormed) : problem.midpoint.length = problem.dimension :=
  (Vec.length_of_zipExact hproblem.midpoint_eq).1

/-- The way to a start point: a climb from the seed, and then into the shrunk box. -/
lemma StartPoint.exists_climb_of_compute [Scalar R] {G : Type} [RandomSource G R]
    {config : Config R} {objective : Objective R} {lower upper : Vec R} {binary : List Bool}
    {smoothness : R} {given : Option (Vec R)} {source source' : G} {start : Vec R}
    (h : StartPoint.compute config objective lower upper binary smoothness given source =
      .ok (start, source')) :
    ∃ (ascent : Ascent R) (seed gradient x : Vec R), seedPoint lower upper given = .ok seed ∧
      ascent.free = freedom config.startAscent binary ∧
      ascent.climb maxSteps seed gradient = .ok x ∧
      Vec.zipExact3 (fun x low high => Scalar.minNum (Scalar.maxNum x low) high) x
        (lower.map (· + config.effectiveAscentStop)) (upper.map (· - config.effectiveAscentStop)) =
          .ok start := by
  simp only [StartPoint.compute, Outcome.bind_eq_ok, Outcome.pure_eq_ok] at h
  obtain ⟨seed, hseed, _, -, x, hclimb, _, hsettle, hstart⟩ := h
  obtain ⟨rfl, -⟩ := Prod.mk.inj hstart
  exact ⟨_, seed, _, x, hseed, rfl, hclimb, hsettle⟩

section Setup

variable [Scalar R] {G : Type} [RandomSource G R] {definition : Definition R} {config : Config R}
  {prepared : Prepared R}

/-- The parts of a setup that succeeded. -/
lemma setup_eq_ok (h : setup G definition config = .ok prepared) :
    ∃ frame smoothness notices gain start midpoint, ∃ source source' : G,
      definition.frame = .ok frame ∧
      definition.findSmoothness (RandomSource.ofSeed config.seed : G) =
        .ok (smoothness, notices, source) ∧
      Scalar.isPositive smoothness = true ∧
      config.coordinateGains frame.binary = .ok gain ∧
      StartPoint.compute config definition.objective definition.lower definition.upper
        frame.binary smoothness definition.start source = .ok (start, source') ∧
      boxMidpoint definition.lower definition.upper = .ok midpoint ∧
      prepared.problem =
        { objective := definition.objective
          lower := definition.lower
          upper := definition.upper
          midpoint
          binary := frame.binary
          equalities := frame.equalities
          inequalities := frame.inequalities
          equalityPenalty := definition.equalityPenalty
          inequalityPenalty := definition.inequalityPenalty
          smoothness
          start
          gain
          equalityDual := frame.equalityDual
          inequalityDual := frame.inequalityDual } := by
  unfold setup at h
  simp only [Outcome.bind_eq_ok, Outcome.ofExcept_eq_ok, Outcome.liftM_eq_ok] at h
  obtain ⟨frame, hframe, ⟨smoothness, notices, source⟩, hsmoothness, h⟩ := h
  split_ifs at h with hpositive
  · exact absurd h Outcome.refuse_bind_ne_ok
  · simp only [Outcome.bind_eq_ok, Outcome.ofExcept_eq_ok, Outcome.liftM_eq_ok,
      Outcome.pure_eq_ok] at h
    obtain ⟨gain, hgain, ⟨start, source'⟩, hstart, midpoint, hmidpoint, rfl⟩ := h
    have hpositive' : Scalar.isPositive smoothness = true := by simpa using hpositive
    exact ⟨frame, smoothness, notices, gain, start, midpoint, source, source', hframe,
      hsmoothness, hpositive', hgain, hstart, hmidpoint, rfl⟩

/-- When all parts succeed, setting up puts them together. -/
lemma setup_eq {frame : Definition.Frame R} {smoothness : R} {notices : List (Notice R)}
    {gain start midpoint : Vec R} {source source' : G} (hframe : definition.frame = .ok frame)
    (hsmoothness : definition.findSmoothness (RandomSource.ofSeed config.seed : G) =
      .ok (smoothness, notices, source))
    (hpositive : Scalar.isPositive smoothness = true)
    (hgain : config.coordinateGains frame.binary = .ok gain)
    (hstart : StartPoint.compute config definition.objective definition.lower definition.upper
      frame.binary smoothness definition.start source = .ok (start, source'))
    (hmidpoint : boxMidpoint definition.lower definition.upper = .ok midpoint) :
    setup G definition config = .ok
      { problem :=
          { objective := definition.objective
            lower := definition.lower
            upper := definition.upper
            midpoint
            binary := frame.binary
            equalities := frame.equalities
            inequalities := frame.inequalities
            equalityPenalty := definition.equalityPenalty
            inequalityPenalty := definition.inequalityPenalty
            smoothness
            start
            gain
            equalityDual := frame.equalityDual
            inequalityDual := frame.inequalityDual }
        notices := notices ++ [⟨.debug, "computed start point", []⟩] } := by
  simp only [setup, hframe, hsmoothness, hpositive, hgain, hstart, hmidpoint, Failure.ofExcept,
    liftM, monadLift, MonadLift.monadLift, Outcome.ok_bind, Bool.not_true, Bool.false_eq_true,
    if_false]
  rfl

/-- A problem that has been set up is well formed. -/
theorem wellFormed_of_setup (h : setup G definition config = .ok prepared) :
    prepared.problem.WellFormed := by
  obtain ⟨frame, smoothness, notices, gain, start, midpoint, source, source', hframe, -,
    hpositive, hgain, hstart, hmidpoint, hproblem⟩ := setup_eq_ok h
  have hf := Definition.framed_of_frame hframe
  obtain ⟨-, -, -, x, -, -, -, hsettle⟩ := StartPoint.exists_climb_of_compute hstart
  obtain ⟨hx, -, rfl⟩ := Vec.zipExact3_eq_ok.1 hsettle
  obtain ⟨hgainLength, hgainPositive⟩ := Config.gains_of_coordinateGains hgain
  rw [hproblem]
  refine ⟨hf.length_upper, hf.bounds, hmidpoint, hf.length_binary, hf.equalities,
    hf.inequalities, hf.equalityPenalty, hf.inequalityPenalty, hpositive, ?_,
    hgainLength.trans hf.length_binary, hgainPositive, hf.equalityDual, hf.inequalityDual⟩
  simp only [List.length_map] at hx
  simp [Problem.dimension, hx, hf.length_upper]

end Setup

end HopfieldDescent
