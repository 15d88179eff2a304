import Mathlib
import HopfieldDescent.Proofs.Direction.Bend
import HopfieldDescent.Proofs.Direction.Total
import HopfieldDescent.Proofs.Problem.ShrunkBox

/-!
# How directions lie to the weighted descent

On every problem that has been set up, at every point and gradient, every rule finds a direction of
length one or zero.  Without chance it does not go up, and a binary rule keeps its angle from the
level directions (`angle_of_find`).

A binary rule finds a direction of length zero although there is somewhere to descend in one case
only: the blend points exactly against the weighted descent.  Then it has no share across it that
the tangent of the angle could be applied to, and the bend cancels it.  In every other case the
direction goes strictly down (`direction_of_blend`).  On a single binary variable that is pulled
uphill, the blend has no other choice (`direction_eq_zero_binarySlope`).
-/

open scoped Matrix

namespace HopfieldDescent.Direction

variable {G : Type} [RandomSource G ℝ]

/-! ## Angles -/

section Find

variable {problem : Problem ℝ} {x gradient : Vec ℝ}

/-- A direction is found, and with it a slope. -/
lemma exists_slope (config : Config ℝ) (hproblem : problem.WellFormed)
    (hx : x.length = problem.dimension)
    (hgradient : gradient.length = problem.dimension) (source : G) :
    ∃ (direction : Vec ℝ) (source' : G) (proxy weighted : Vec ℝ),
      find problem (problem.boxMap config.activation) config x gradient source =
        .ok (direction, source') ∧
      direction.length = problem.dimension ∧
      (problem.boxMap config.activation).proxyDistance x = .ok proxy ∧
      Vec.mul proxy gradient = .ok weighted ∧ weighted.length = problem.dimension ∧
      Vec.dot weighted direction =
        .ok (Vec.coords problem.dimension weighted ⬝ᵥ Vec.coords _ direction) := by
  have hmap := hproblem.fits_boxMap config.activation
  obtain ⟨⟨direction, source'⟩, hfind, hdirection⟩ :=
    returns_find hproblem hmap config hx hgradient source
  obtain ⟨proxy, hproxy, hproxyLength⟩ := BoxMap.returns_proxyDistance hmap hx
  obtain ⟨weighted, hweighted, hlength⟩ :=
    Vec.returns_zipSpread (f := ((· * ·) : ℝ → ℝ → ℝ)) hproxyLength hgradient
  refine ⟨direction, source', proxy, weighted, hfind, hdirection, hproxy, hweighted, hlength, ?_⟩
  rw [← Vec.inner_eq_dotProduct hlength hdirection]
  exact Outcome.bind_eq_ok.2 ⟨(), Breach.sameLength_eq_ok.2 (hlength.trans hdirection.symm), rfl⟩

end Find

section Setup

variable {G' : Type} [RandomSource G' ℝ] {definition : Definition ℝ} {draft : Settings ℝ}
  {setupConfig config : Config ℝ} {prepared : Prepared ℝ} {x gradient : Vec ℝ}

/-- Directions of every rule: they have length zero or one, do not go up unless they depend on
chance, and keep the angle of the settings from the level directions if the rule is a binary one. -/
theorem angle_of_find (hsetup : setup G' definition setupConfig = .ok prepared)
    (hbuild : draft.build = .ok config) (hx : x.length = prepared.problem.dimension)
    (hgradient : gradient.length = prepared.problem.dimension) (source : G) :
    ∃ (direction : Vec ℝ) (source' : G) (proxy weighted : Vec ℝ) (slope : ℝ),
      find prepared.problem (prepared.problem.boxMap config.activation) config x gradient source =
        .ok (direction, source') ∧
      direction.length = prepared.problem.dimension ∧
      (Vec.norm direction = 0 ∨ Vec.norm direction = 1) ∧
      (prepared.problem.boxMap config.activation).proxyDistance x = .ok proxy ∧
      Vec.mul proxy gradient = .ok weighted ∧ Vec.dot weighted direction = .ok slope ∧
      (config.direction ≠ .stochastic → slope ≤ 0) ∧
      (config.direction.Blends → Vec.norm direction ≠ 0 →
        Real.sin config.theta * Vec.norm weighted ≤ -slope) := by
  have hproblem := wellFormed_of_setup hsetup
  have htheta := Config.theta_mem_Icc hbuild
  obtain ⟨direction, source', proxy, weighted, hfind, hdirection, hproxy, hweighted, -, hslope⟩ :=
    exists_slope config hproblem hx hgradient source
  refine ⟨direction, source', proxy, weighted, _, hfind, hdirection, norm_of_find hfind, hproxy,
    hweighted, hslope, ?_, ?_⟩
  · intro hrule
    exact slope_nonpos hproblem htheta hrule hfind hproxy hweighted hslope
  · intro hrule hnonzero
    exact sin_mul_norm_le hproblem hrule htheta hgradient hproxy hweighted hfind hnonzero

end Setup

/-! ## A slope with a binary variable -/

namespace BinarySlope

/-- A slope over the unit interval whose variable is binary, with a point to start near. -/
noncomputable def definition : Definition ℝ :=
  { Definition.ofBox (Landscape.linear [1]) [0] [1] with
    mask := some [1]
    smoothness := some 1
    start := some [0.75] }

/-- A neutral ascent that stops a quarter of the interval away from the bounds. -/
noncomputable def draft (absorption : Option ℝ) : Settings ℝ :=
  { Settings.standard with
    activation := .piecewiseLinear
    startAscent := .binaryNeutralAscent
    ascentStop := some 0.25
    absorption }

/-- The slope as a problem. -/
noncomputable def problem : Problem ℝ where
  objective := Landscape.linear [1]
  lower := [0]
  upper := [1]
  midpoint := [0.5]
  binary := [true]
  equalities := none
  inequalities := none
  equalityPenalty := 0.0
  inequalityPenalty := 0.0
  smoothness := 1
  start := [0.75]
  gain := [1]
  equalityDual := none
  inequalityDual := none

lemma inRange_draft (absorption : Option ℝ) (h : ∀ a ∈ absorption, 0 ≤ a) :
    (draft absorption).InRange :=
  { Settings.inRange_standard with
    ascentStop := by norm_num [draft]
    absorption := fun a ha => by simpa using h a ha }

lemma setup_definition (absorption : Option ℝ) (h : ∀ a ∈ absorption, a < 0.25) :
    ∃ notices, setup Unit definition ⟨draft absorption⟩ = .ok ⟨problem, notices⟩ := by
  have hframe : definition.frame = .ok ⟨[true], none, none, none, none⟩ := by
    unfold Definition.frame definition
    simp [Definition.ofBox, Definition.badBounds?, Definition.boundsEnclose, Definition.checkMask,
      Definition.checkBlock, Definition.checkPenalty, Definition.checkDual, Definition.checkStart,
      Outcome.ok_bind]
  have hsmoothness : definition.findSmoothness () = .ok (1, [], ()) := rfl
  have hgain := Config.coordinateGains_of_uniform ⟨draft absorption⟩ rfl [true]
  have hmidpoint : boxMidpoint definition.lower definition.upper = .ok [0.5] := by
    simp [boxMidpoint, definition, Definition.ofBox, Vec.zipExact, Breach.sameLength]
  obtain ⟨_, hstart⟩ : ∃ source', StartPoint.compute ⟨draft absorption⟩ definition.objective
      definition.lower definition.upper [true] 1 definition.start () =
        .ok ([0.75], source') := by
    have hstop : Config.effectiveAscentStop ⟨draft absorption⟩ = 0.25 :=
      Config.effectiveAscentStop_of_lt rfl h
    have hseed : StartPoint.seedPoint definition.lower definition.upper definition.start =
        .ok [0.75] := by
      have hinside : Vec.strictlyInside [0] [1] [(0.75 : ℝ)] = true := by
        simp only [Vec.strictlyInside]
        norm_num
      simp only [StartPoint.seedPoint, definition, Definition.ofBox, hinside, if_true]
    -- the given point lies on the edge of the shrunk interval
    refine StartPoint.compute_of_not_strictlyInside () hseed
      (rfl : definition.objective.gradient [0.75] = .ok [1]) ?_ ?_
    · simp [Vec.strictlyInside, hstop, definition, Definition.ofBox]
      norm_num
    · simp [hstop, definition, Definition.ofBox, Vec.zipExact3, Vec.zipExact, Breach.sameLength,
        Outcome.ok_bind]
      norm_num
  exact ⟨_, setup_eq hframe hsmoothness (by simp) hgain hstart hmidpoint⟩

end BinarySlope

/-- The angle on the binary slope, with absorption. -/
theorem angle_of_find_binarySlope :
    ∃ (prepared : Prepared ℝ) (direction proxy weighted : Vec ℝ) (slope : ℝ),
      setup Unit BinarySlope.definition ⟨BinarySlope.draft (some 0.1)⟩ = .ok prepared ∧
      (BinarySlope.draft (some 0.1)).build = .ok ⟨BinarySlope.draft (some 0.1)⟩ ∧
      find prepared.problem (prepared.problem.boxMap .piecewiseLinear)
        ⟨BinarySlope.draft (some 0.1)⟩ [0.25] [1] () = .ok (direction, ()) ∧
      (Vec.norm direction = 0 ∨ Vec.norm direction = 1) ∧
      (prepared.problem.boxMap .piecewiseLinear).proxyDistance [0.25] = .ok proxy ∧
      Vec.mul proxy [1] = .ok weighted ∧ Vec.dot weighted direction = .ok slope ∧ slope ≤ 0 ∧
      (Vec.norm direction ≠ 0 → Real.sin 0.01 * Vec.norm weighted ≤ -slope) := by
  obtain ⟨notices, hsetup⟩ := BinarySlope.setup_definition (some 0.1) (by norm_num)
  have hbuild := Settings.build_of_inRange (BinarySlope.inRange_draft (some 0.1) (by norm_num))
  have hx : [(0.25 : ℝ)].length = BinarySlope.problem.dimension := rfl
  have hgradient : [(1 : ℝ)].length = BinarySlope.problem.dimension := rfl
  obtain ⟨direction, source', proxy, weighted, slope, hfind, -, hnorm, hproxy, hweighted, hslope,
    hdown, hangle⟩ := angle_of_find hsetup hbuild hx hgradient ()
  exact ⟨_, direction, proxy, weighted, slope, hsetup, hbuild, hfind, hnorm, hproxy, hweighted,
    hslope, hdown nofun, hangle (.inl rfl)⟩

/-! ## Blends that cancel -/

section Cancel

variable {problem : Problem ℝ} {config : Config ℝ}
  {x gradient w proxy weighted direction : Vec ℝ} {source source' : G}

/-- Where the weighted descent does not vanish, a binary rule finds no direction exactly if its
blend points against it. -/
lemma norm_eq_zero_iff_of_find (hproblem : problem.WellFormed) (hrule : config.direction.Blends)
    (hgradient : gradient.length = problem.dimension)
    (hproxy : (problem.boxMap config.activation).proxyDistance x = .ok proxy)
    (hweighted : Vec.mul proxy gradient = .ok weighted) (hnonzero : Vec.norm weighted ≠ 0)
    (hfind : find problem (problem.boxMap config.activation) config x gradient source =
      .ok (direction, source')) :
    ∃ w, blend problem (problem.boxMap config.activation) config x gradient = .ok w ∧
      (Vec.norm direction = 0 ↔ ∃ c : ℝ, 0 ≤ c ∧ w = weighted.scale c) := by
  obtain ⟨hlength, w, z, hblend, hw, hz, rfl, hbent⟩ :=
    exists_bent_of_find hproblem hrule hgradient hproxy hweighted hfind
  set n := problem.dimension
  have hneg : weighted.neg.length = n := (Vec.length_neg _).trans hlength
  have hdescent := Vec.coords_eq_neg_norm_smul hlength
  set g := Vec.coords n (Vec.normalize weighted.neg)
  have hg : g ⬝ᵥ g = 1 := by
    apply Vec.normalize_dotProduct_self hneg
    rwa [Vec.norm_neg]
  refine ⟨w, hblend, ?_⟩
  rw [Vec.norm_normalize_eq_zero_iff, Vec.norm_eq_zero_iff hz, hbent, Bend.bent_eq_zero_iff hg]
  constructor
  · rintro ⟨c, hc, hcoords⟩
    refine ⟨c / Vec.norm weighted, div_nonneg hc (Vec.norm_nonneg _), ?_⟩
    apply Vec.eq_of_coords_eq hw ((Vec.length_scale _ _).trans hlength)
    rw [Vec.coords_scale hlength, hdescent, hcoords, smul_neg, smul_smul,
      div_mul_cancel₀ c hnonzero]
  · rintro ⟨c, hc, rfl⟩
    refine ⟨c * Vec.norm weighted, mul_nonneg hc (Vec.norm_nonneg _), ?_⟩
    rw [Vec.coords_scale hlength, hdescent, smul_neg, smul_smul]

variable {G' : Type} [RandomSource G' ℝ] {definition : Definition ℝ} {draft : Settings ℝ}
  {setupConfig : Config ℝ} {prepared : Prepared ℝ}

/-- Directions of a binary rule where the weighted descent does not vanish: the direction vanishes
exactly if the blend points against the weighted descent, and otherwise it has length one and goes
down. -/
theorem direction_of_blend (hsetup : setup G' definition setupConfig = .ok prepared)
    (hbuild : draft.build = .ok config) (hrule : config.direction.Blends)
    (htheta : 0 < config.theta) (hx : x.length = prepared.problem.dimension)
    (hgradient : gradient.length = prepared.problem.dimension) (source : G) :
    ∃ (direction : Vec ℝ) (source' : G) (proxy weighted : Vec ℝ) (slope : ℝ),
      find prepared.problem (prepared.problem.boxMap config.activation) config x gradient source =
        .ok (direction, source') ∧
      (prepared.problem.boxMap config.activation).proxyDistance x = .ok proxy ∧
      Vec.mul proxy gradient = .ok weighted ∧ Vec.dot weighted direction = .ok slope ∧
      (Vec.norm weighted ≠ 0 → ∃ w,
        blend prepared.problem (prepared.problem.boxMap config.activation) config x gradient =
          .ok w ∧
        (Vec.norm direction = 0 ↔ ∃ c : ℝ, 0 ≤ c ∧ w = weighted.scale c) ∧
        (Vec.norm direction ≠ 0 → Vec.norm direction = 1 ∧ slope < 0)) := by
  have hproblem := wellFormed_of_setup hsetup
  have hangle := Config.theta_mem_Icc hbuild
  obtain ⟨direction, source', proxy, weighted, hfind, -, hproxy, hweighted, -, hslope⟩ :=
    exists_slope config hproblem hx hgradient source
  refine ⟨direction, source', proxy, weighted, _, hfind, hproxy, hweighted, hslope, ?_⟩
  intro hnonzero
  obtain ⟨w, hblend, hcancels⟩ :=
    norm_eq_zero_iff_of_find hproblem hrule hgradient hproxy hweighted hnonzero hfind
  refine ⟨w, hblend, hcancels, fun hdirection => ⟨(norm_of_find hfind).resolve_left hdirection, ?_⟩⟩
  have hsin : 0 < Real.sin config.theta := by
    apply Real.sin_pos_of_pos_of_lt_pi htheta
    linarith [hangle.2, Real.pi_gt_three]
  have hdown := sin_mul_norm_le hproblem hrule hangle hgradient hproxy hweighted hfind hdirection
  linarith [mul_pos hsin ((Vec.norm_nonneg weighted).lt_of_ne' hnonzero)]

end Cancel

/-! ## On the binary slope -/

section BinarySlope

variable {absorption : Option ℝ} {a : ℝ}

/-- Inside the interval no coordinate is saturated. -/
lemma proxyDistance_binarySlope (ha : a ∈ Set.Ioo 0 1) :
    (BinarySlope.problem.boxMap .piecewiseLinear).proxyDistance [a] = .ok [1] := by
  obtain ⟨h₀, h₁⟩ := ha
  simp [BoxMap.proxyDistance, Problem.boxMap, BinarySlope.problem, Activation.squashing,
    PiecewiseLinear.proxy, BoxMap.normalized, Vec.zipExact4, Vec.zipExact3, Vec.zipExact,
    Breach.sameLength, Outcome.ok_bind, h₀, h₁]

/-- A point is pulled to the bound on its side of the midpoint. -/
lemma binaryPull_binarySlope (map : BoxMap ℝ) (a : ℝ) :
    binaryPull BinarySlope.problem map .binary [a] = .ok [Scalar.signum (a - 1 / 2)] := by
  simp [binaryPull, offset, BinarySlope.problem, Vec.zipExact, Breach.sameLength, Outcome.ok_bind]

/-- The pull by one and the descent by minus one are blended in the shares of the settings. -/
lemma blend_binarySlope {s : ℝ} (hs : s = 1 ∨ s = -1) (ha : Scalar.signum (a - 1 / 2) = s) :
    blend BinarySlope.problem (BinarySlope.problem.boxMap .piecewiseLinear)
      ⟨BinarySlope.draft none⟩ [a] [1] = .ok [s * 0.9 - 0.1] := by
  have hsqrt : √(s * s) = 1 := by
    rcases hs with rfl | rfl
    · simp
    · simp
  have hpull := binaryPull_binarySlope (BinarySlope.problem.boxMap .piecewiseLinear) a
  rw [ha] at hpull
  have hrule : (BinarySlope.draft none).direction = .binary := rfl
  have hgamma : (BinarySlope.draft none).gamma = 0.9 := rfl
  have hmask : maskOf BinarySlope.problem ⟨BinarySlope.draft none⟩ [a] = .ok none := rfl
  simp [blend, hmask, hrule, hpull, hgamma, masked, Vec.normalize, Vec.norm, Vec.inner, Vec.sum,
    Vec.neg, Vec.scale, Vec.add, Vec.zipSpread, Outcome.ok_bind, hsqrt]
  ring

lemma mul_one_one : Vec.mul [(1 : ℝ)] [1] = .ok [1] := by
  simp [Vec.mul, Vec.zipSpread]

/-- At the start point the binary rule finds no direction, although the weighted descent does not
vanish: the pull to the upper bound outweighs it, and the bend cancels what is left. -/
theorem direction_eq_zero_binarySlope : ∃ (prepared : Prepared ℝ) (gradient proxy weighted : Vec ℝ),
    setup Unit BinarySlope.definition ⟨BinarySlope.draft none⟩ = .ok prepared ∧
    (BinarySlope.draft none).build = .ok ⟨BinarySlope.draft none⟩ ∧
    (BinarySlope.draft none).direction.Blends ∧ 0 < (BinarySlope.draft none).theta ∧
    prepared.problem.objective.gradient prepared.problem.start = .ok gradient ∧
    (prepared.problem.boxMap .piecewiseLinear).proxyDistance prepared.problem.start = .ok proxy ∧
    Vec.mul proxy gradient = .ok weighted ∧ Vec.norm weighted ≠ 0 ∧
    find prepared.problem (prepared.problem.boxMap .piecewiseLinear) ⟨BinarySlope.draft none⟩
      prepared.problem.start gradient () = .ok ([0], ()) := by
  obtain ⟨notices, hsetup⟩ := BinarySlope.setup_definition none nofun
  have hproblem : BinarySlope.problem.WellFormed := wellFormed_of_setup hsetup
  have hbuild := Settings.build_of_inRange (BinarySlope.inRange_draft none nofun)
  have hrule : (⟨BinarySlope.draft none⟩ : Config ℝ).direction.Blends := .inl rfl
  have htheta : 0 < (⟨BinarySlope.draft none⟩ : Config ℝ).theta := by
    norm_num [BinarySlope.draft, Settings.standard]
  have hproxy := proxyDistance_binarySlope (a := 0.75) (by norm_num)
  have hnonzero : Vec.norm [(1 : ℝ)] ≠ 0 := by simp
  have hx : [(0.75 : ℝ)].length = BinarySlope.problem.dimension := rfl
  have hgradient : [(1 : ℝ)].length = BinarySlope.problem.dimension := rfl
  obtain ⟨⟨direction, source'⟩, hfind, hdirection⟩ := returns_find hproblem
    (hproblem.fits_boxMap .piecewiseLinear) ⟨BinarySlope.draft none⟩ hx hgradient ()
  obtain ⟨w, hw, hcancels⟩ :=
    norm_eq_zero_iff_of_find hproblem hrule hgradient hproxy mul_one_one hnonzero hfind
  have hzero : Vec.norm direction = 0 := by
    apply hcancels.2
    obtain rfl := Except.ok.inj
      ((blend_binarySlope (.inl rfl) (by norm_num [Scalar.signum])).symm.trans hw)
    refine ⟨0.8, by norm_num, ?_⟩
    norm_num [Vec.scale]
  obtain ⟨d, rfl⟩ : ∃ d, direction = [d] := List.length_eq_one_iff.1 hdirection
  obtain rfl : d = 0 := by simpa using hzero
  exact ⟨_, [1], [1], [1], hsetup, hbuild, hrule, htheta, rfl, hproxy, mul_one_one, hnonzero, hfind⟩

/-- A point below the midpoint is pulled the way of the descent. -/
theorem direction_of_blend_binarySlope :
    ∃ (prepared : Prepared ℝ) (direction weighted : Vec ℝ) (slope : ℝ),
      setup Unit BinarySlope.definition ⟨BinarySlope.draft none⟩ = .ok prepared ∧
      (BinarySlope.draft none).build = .ok ⟨BinarySlope.draft none⟩ ∧
      (BinarySlope.draft none).direction.Blends ∧ 0 < (BinarySlope.draft none).theta ∧
      find prepared.problem (prepared.problem.boxMap .piecewiseLinear) ⟨BinarySlope.draft none⟩
        [0.25] [1] () = .ok (direction, ()) ∧
      Vec.norm weighted ≠ 0 ∧ Vec.dot weighted direction = .ok slope ∧
      Vec.norm direction = 1 ∧ slope < 0 := by
  obtain ⟨notices, hsetup⟩ := BinarySlope.setup_definition none nofun
  have hbuild := Settings.build_of_inRange (BinarySlope.inRange_draft none nofun)
  have hrule : (⟨BinarySlope.draft none⟩ : Config ℝ).direction.Blends := .inl rfl
  have htheta : 0 < (⟨BinarySlope.draft none⟩ : Config ℝ).theta := by
    norm_num [BinarySlope.draft, Settings.standard]
  have hproxy := proxyDistance_binarySlope (a := 0.25) (by norm_num)
  have hnonzero : Vec.norm [(1 : ℝ)] ≠ 0 := by simp
  have hx : [(0.25 : ℝ)].length = BinarySlope.problem.dimension := rfl
  have hgradient : [(1 : ℝ)].length = BinarySlope.problem.dimension := rfl
  obtain ⟨direction, source', proxy, weighted, slope, hfind, hproxy', hweighted, hslope, h⟩ :=
    direction_of_blend hsetup hbuild hrule htheta hx hgradient ()
  obtain rfl : [1] = proxy := Except.ok.inj (hproxy.symm.trans hproxy')
  obtain rfl : [1] = weighted := Except.ok.inj (mul_one_one.symm.trans hweighted)
  obtain ⟨w, hw, hcancels, hdown⟩ := h hnonzero
  have hdirection : Vec.norm direction ≠ 0 := by
    intro hzero
    obtain ⟨c, hc, rfl⟩ := hcancels.1 hzero
    have hblend := Except.ok.inj
      ((blend_binarySlope (.inr rfl) (by norm_num [Scalar.signum])).symm.trans hw)
    norm_num [Vec.scale] at hblend
    linarith
  exact ⟨_, direction, [1], slope, hsetup, hbuild, hrule, htheta, hfind, hnonzero, hslope,
    hdown hdirection⟩

end BinarySlope

end HopfieldDescent.Direction
