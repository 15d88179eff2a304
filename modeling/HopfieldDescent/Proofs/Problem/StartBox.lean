import Mathlib
import HopfieldDescent.Objective.Landscape
import HopfieldDescent.Proofs.Config.Accepted
import HopfieldDescent.Proofs.Problem.WellFormed
import HopfieldDescent.Proofs.Vec.Box

/-!
# The start point and the box

At the end of the start ascent each coordinate is moved between the lower bound plus the stop
distance and the upper bound less the stop distance, the latter winning.  On a side that is at least
as wide as the stop distance this leads to a point of the box.  On a narrower side the two ends have
crossed so far that the upper one lies below the lower bound, and the start point leaves the box.
-/

namespace HopfieldDescent

variable {G : Type}

/-- The stop distance of an accepted configuration is not negative. -/
lemma Config.effectiveAscentStop_nonneg {draft : Settings ℝ} {config : Config ℝ}
    (h : draft.build = .ok config) : 0 ≤ config.effectiveAscentStop := by
  obtain ⟨hconfig, hrange⟩ := Settings.inRange_of_build h
  unfold effectiveAscentStop
  rw [hconfig]
  split
  · rename_i ascent absorption hascent habsorption
    have h₁ : 0 ≤ ascent := by simpa using hrange.ascentStop ascent hascent
    have h₂ : 0 ≤ absorption := by simpa using hrange.absorption absorption habsorption
    split_ifs
    · rw [Scalar.literal_two]
      positivity
    · exact h₁
  · rename_i ascent hascent _
    simpa using hrange.ascentStop ascent hascent
  · simp

/-- Absorption over less than the stop distance does not move the stop. -/
lemma Config.effectiveAscentStop_of_lt {config : Config ℝ} {ascent : ℝ}
    (hascent : config.ascentStop = some ascent) (h : ∀ a ∈ config.absorption, a < ascent) :
    config.effectiveAscentStop = ascent := by
  unfold effectiveAscentStop
  rw [hascent]
  cases habsorption : config.absorption with
  | none => rfl
  | some a => exact if_neg (not_le.2 (h a habsorption))

/-- A single gain of one is the gain of every coordinate. -/
lemma Config.coordinateGains_of_uniform (config : Config ℝ) (h : config.gain = .uniform 1.0)
    (binary : List Bool) : config.coordinateGains binary = .ok (binary.map fun _ => 1) := by
  have hgains : config.requestedGains binary = some (binary.map fun _ => 1) := by
    simp only [requestedGains, h, Scalar.literal_one, ite_self]
  simp [coordinateGains, hgains]

namespace StartPoint

section Over

variable {R : Type} [Scalar R]

/-- An ascent that is over stays where it is. -/
lemma Ascent.climb_of_isOver {ascent : Ascent R} {steps : Nat} {x gradient : Vec R}
    (h : ascent.isOver x gradient = true) : ascent.climb steps x gradient = .ok x := by
  cases steps with
  | zero => rfl
  | succ steps => rw [climb, if_pos h]

/-- From a seed that is not strictly inside the shrunk box there is no ascent, and the start point
is the seed moved into that box. -/
lemma compute_of_not_strictlyInside [RandomSource G R] {config : Config R}
    {objective : Objective R} {lower upper seed gradient start : Vec R} {binary : List Bool}
    {smoothness : R} {given : Option (Vec R)} (source : G)
    (hseed : seedPoint lower upper given = .ok seed)
    (hgradient : objective.gradient seed = .ok gradient)
    (houtside : Vec.strictlyInside (lower.map (· + config.effectiveAscentStop))
      (upper.map (· - config.effectiveAscentStop)) seed = false)
    (hsettle : Vec.zipExact3 (fun x low high => Scalar.minNum (Scalar.maxNum x low) high) seed
      (lower.map (· + config.effectiveAscentStop)) (upper.map (· - config.effectiveAscentStop)) =
        .ok start) :
    ∃ source', compute config objective lower upper binary smoothness given source =
      .ok (start, source') := by
  simp only [compute, hseed, hgradient, Outcome.ok_bind]
  rw [Ascent.climb_of_isOver (by simp [Ascent.isOver, houtside])]
  simp only [Ascent.settle, hsettle, Outcome.ok_bind]
  exact ⟨_, rfl⟩

end Over

/-- A settled coordinate lies between its bounds exactly when these are at least the stop distance
apart. -/
lemma settled_mem_Icc_iff {x l u e : ℝ} (he : 0 ≤ e) :
    min (max x (l + e)) (u - e) ∈ Set.Icc l u ↔ e ≤ u - l := by
  constructor
  · rintro ⟨hlower, -⟩
    have := hlower.trans (min_le_right _ _)
    linarith
  · intro h
    have hmax : l + e ≤ max x (l + e) := le_max_right _ _
    refine ⟨le_min (by linarith) (by linarith), (min_le_right _ _).trans (by linarith)⟩

/-- On a side narrower than the stop distance a coordinate settles below its lower bound. -/
lemma settled_of_lt {x l u e : ℝ} (hlt : l < u) (h : u - l < e) :
    min (max x (l + e)) (u - e) = u - e := by
  have hmax : l + e ≤ max x (l + e) := le_max_right _ _
  exact min_eq_right (by linarith)

end StartPoint

section Setup

variable [RandomSource G ℝ] {definition : Definition ℝ} {draft : Settings ℝ} {config : Config ℝ}
  {prepared : Prepared ℝ}

/-- Each coordinate of the start point of a problem has settled. -/
lemma settled_of_setup (h : setup G definition config = .ok prepared) {i : ℕ} {l u : ℝ}
    (hl : prepared.problem.lower[i]? = some l) (hu : prepared.problem.upper[i]? = some u) :
    ∃ x, prepared.problem.start[i]? =
      some (min (max x (l + config.effectiveAscentStop)) (u - config.effectiveAscentStop)) := by
  obtain ⟨frame, smoothness, notices, gain, start, midpoint, source, source', -, -, -, -,
    hstart, -, hproblem⟩ := setup_eq_ok h
  rw [hproblem] at hl hu ⊢
  obtain ⟨-, -, -, v, -, -, -, hsettle⟩ := StartPoint.exists_climb_of_compute hstart
  obtain ⟨hlength, -, rfl⟩ := Vec.zipExact3_eq_ok.1 hsettle
  have hv : i < v.length := by
    obtain ⟨hi, -⟩ := List.getElem?_eq_some_iff.1 hl
    rw [hlength, List.length_map]
    exact hi
  refine ⟨v[i], ?_⟩
  simp [List.getElem?_zipWith, List.zip, hl, hu, hv]

/-- For which boxes a problem starts in its box: a coordinate of the start point lies between its
bounds exactly when these are at least the stop distance of the ascent apart, and otherwise it lies
by the missing distance below the lower one. -/
theorem start_mem_box_iff (hbuild : draft.build = .ok config)
    (hsetup : setup G definition config = .ok prepared) :
    prepared.problem.start.length = prepared.problem.dimension ∧
    ∀ (i : ℕ) (l u : ℝ), prepared.problem.lower[i]? = some l →
      prepared.problem.upper[i]? = some u →
      ∃ a, prepared.problem.start[i]? = some a ∧
        (a ∈ Set.Icc l u ↔ config.effectiveAscentStop ≤ u - l) ∧
        (u - l < config.effectiveAscentStop → a = l - (config.effectiveAscentStop - (u - l))) := by
  have hproblem := wellFormed_of_setup hsetup
  refine ⟨hproblem.length_start, fun i l u hl hu => ?_⟩
  obtain ⟨x, hx⟩ := settled_of_setup hsetup hl hu
  refine ⟨_, hx, StartPoint.settled_mem_Icc_iff (Config.effectiveAscentStop_nonneg hbuild), ?_⟩
  intro hnarrow
  rw [StartPoint.settled_of_lt (hproblem.lower_lt_upper hl hu) hnarrow]
  ring

end Setup

/-! ## A box narrower than the stop distance -/

/-- A random source that only ever draws zero. -/
noncomputable instance : RandomSource Unit ℝ := ⟨fun _ => (), fun _ => (0, ())⟩

/-- A slope over an interval of half the width of the standard stop distance. -/
noncomputable def narrowSlope : Definition ℝ :=
  { Definition.ofBox (Landscape.linear [1]) [0] [0.005] with smoothness := some 1 }

/-- The standard configuration stops the ascent at a distance of one hundredth. -/
lemma effectiveAscentStop_standard : (Config.standard : Config ℝ).effectiveAscentStop = 0.01 :=
  rfl

/-- The slope is set up with a start point below its box. -/
lemma setup_narrowSlope : ∃ prepared : Prepared ℝ,
    setup Unit narrowSlope .standard = .ok prepared ∧ prepared.problem.lower = [0] ∧
      prepared.problem.upper = [0.005] ∧ prepared.problem.start = [-0.005] := by
  have hframe : narrowSlope.frame = .ok ⟨[false], none, none, none, none⟩ := by
    unfold Definition.frame narrowSlope
    simp [Definition.ofBox, Definition.badBounds?, Definition.boundsEnclose, Definition.checkMask,
      Definition.checkBlock, Definition.checkPenalty, Definition.checkDual, Definition.checkStart,
      Outcome.ok_bind]
    norm_num
  have hsmoothness : narrowSlope.findSmoothness () = .ok (1, [], ()) := rfl
  have hgain := Config.coordinateGains_of_uniform .standard rfl [false]
  have hmidpoint : boxMidpoint narrowSlope.lower narrowSlope.upper = .ok [0.0025] := by
    simp [boxMidpoint, narrowSlope, Definition.ofBox, Vec.zipExact, Breach.sameLength]
    norm_num
  obtain ⟨_, hstart⟩ : ∃ source', StartPoint.compute .standard narrowSlope.objective
      narrowSlope.lower narrowSlope.upper [false] 1 narrowSlope.start () =
        .ok ([-0.005], source') := by
    refine StartPoint.compute_of_not_strictlyInside () hmidpoint
      (rfl : narrowSlope.objective.gradient [0.0025] = .ok [1]) ?_ ?_
    · simp [Vec.strictlyInside, effectiveAscentStop_standard, narrowSlope, Definition.ofBox]
      norm_num
    · simp [effectiveAscentStop_standard, narrowSlope, Definition.ofBox, Vec.zipExact3,
        Vec.zipExact, Breach.sameLength, Outcome.ok_bind]
      norm_num
  exact ⟨_, setup_eq hframe hsmoothness (by simp) hgain hstart hmidpoint, rfl, rfl, rfl⟩

/-- A start point is not always a point of the box. -/
theorem start_outside_narrowSlope : ∃ prepared : Prepared ℝ,
    setup Unit narrowSlope .standard = .ok prepared ∧
      ¬Vec.InBox prepared.problem.lower prepared.problem.upper prepared.problem.start := by
  obtain ⟨prepared, hsetup, hlower, hupper, hstart⟩ := setup_narrowSlope
  refine ⟨prepared, hsetup, fun hbox => ?_⟩
  rw [hlower, hupper, hstart] at hbox
  have := (hbox.mem_Icc (i := 0) rfl rfl rfl).1
  norm_num at this

/-- The slope starts below its box by the missing distance. -/
theorem start_mem_box_iff_narrowSlope : ∃ prepared : Prepared ℝ,
    (Settings.standard : Settings ℝ).build = .ok .standard ∧
    setup Unit narrowSlope .standard = .ok prepared ∧
    (0.005 : ℝ) - 0 < (Config.standard : Config ℝ).effectiveAscentStop ∧
    ∃ a, prepared.problem.start[0]? = some a ∧ a ∉ Set.Icc (0 : ℝ) 0.005 ∧
      a = 0 - ((Config.standard : Config ℝ).effectiveAscentStop - (0.005 - 0)) := by
  obtain ⟨prepared, hsetup, hlower, hupper, -⟩ := setup_narrowSlope
  have hnarrow : (0.005 : ℝ) - 0 < (Config.standard : Config ℝ).effectiveAscentStop := by
    rw [effectiveAscentStop_standard]
    norm_num
  have hbuild : (Settings.standard : Settings ℝ).build = .ok .standard :=
    Settings.build_of_inRange Settings.inRange_standard
  obtain ⟨-, h⟩ := start_mem_box_iff hbuild hsetup
  obtain ⟨a, ha, hiff, hmissing⟩ := h 0 0 0.005 (by simp [hlower]) (by simp [hupper])
  exact ⟨prepared, hbuild, hsetup, hnarrow, a, ha,
    fun hmem => hnarrow.not_ge (hiff.1 hmem), hmissing hnarrow⟩

end HopfieldDescent
