import Mathlib
import HopfieldDescent.Run.Dynamics
import HopfieldDescent.Proofs.Problem.StartBox
import HopfieldDescent.Proofs.Problem.Total
import HopfieldDescent.Proofs.Vec.Spread

/-!
# The start point and the shrunk box

Where the bounds of every coordinate are at least twice the stop distance apart, the ends of the
shrunk box have not crossed, and the start point is a point of it, wherever the ascent has led.

An ascent that keeps binary coordinates neutral does not move them at all: each of its steps adds a
multiple of a gradient whose entries for them have been set to zero, be it the gradient of the
objective or the random stand-in (`Ascent.getElem?_of_climb`).  They start from the seed, moved into
the shrunk box.

The stop distance is never below the absorption distance when both have been set, so that no
coordinate of the start point is near enough to a bound to be absorbed.
-/

namespace HopfieldDescent

variable {G : Type} {n : ℕ}

/-- Where both distances have been set, the ascent stops before it is within reach of absorption. -/
lemma Config.absorption_le_effectiveAscentStop {draft : Settings ℝ} {config : Config ℝ}
    {ascent distance : ℝ} (h : draft.build = .ok config) (hascent : config.ascentStop = some ascent)
    (habsorption : config.absorption = some distance) : distance ≤ config.effectiveAscentStop := by
  obtain ⟨hconfig, hrange⟩ := Settings.inRange_of_build h
  have hnonneg : 0 ≤ distance := by
    simpa using hrange.absorption distance (by rw [← hconfig]; exact habsorption)
  unfold effectiveAscentStop
  rw [hascent, habsorption]
  dsimp only
  split_ifs with hle
  · rw [Scalar.literal_two]
    linarith
  · exact (not_le.1 hle).le

/-! ## Where the ascent may not go -/

namespace StartPoint

/-- A climb leaves the coordinates alone that it may not move. -/
lemma Ascent.getElem?_of_climb {ascent : Ascent ℝ} {steps : ℕ} {x gradient y : Vec ℝ} {i : ℕ}
    (hfree : Vec.partner ascent.free i = 0) (h : ascent.climb steps x gradient = .ok y) :
    y[i]? = x[i]? := by
  induction steps generalizing x gradient with
  | zero =>
    obtain rfl := Except.ok.inj h
    rfl
  | succ steps ih =>
    rw [climb] at h
    split_ifs at h
    · obtain rfl := Except.ok.inj h
      rfl
    · simp only [Outcome.bind_eq_ok] at h
      obtain ⟨step, hstep, moved, hmoved, gradient', -, hclimb⟩ := h
      rw [ih hclimb]
      apply Vec.getElem?_of_shiftScaled hmoved
      rw [Vec.partner_of_mul hstep, hfree, mul_zero]

/-- The neutral ascent may not move binary coordinates. -/
lemma partner_freedom_eq_zero {binary : List Bool} {i : ℕ} (h : binary[i]? = some true) :
    Vec.partner (freedom .binaryNeutralAscent binary : Vec ℝ) i = 0 := by
  have hlength : (freedom .binaryNeutralAscent binary : Vec ℝ).length = binary.length :=
    List.length_map _
  have hi : i < binary.length := (List.getElem?_eq_some_iff.1 h).1
  rw [Vec.partner_eq_coords hlength ⟨i, hi⟩]
  simp [Vec.coords, freedom, h]

section Compute

variable [RandomSource G ℝ] {config : Config ℝ} {objective : Objective ℝ} {lower upper : Vec ℝ}
  {binary : List Bool} {smoothness : ℝ} {given : Option (Vec ℝ)} {source source' : G}
  {start : Vec ℝ}

/-- A binary coordinate that has not been moved settles from the seed. -/
lemma getElem?_of_compute_neutral (hrule : config.startAscent = .binaryNeutralAscent)
    (h : compute config objective lower upper binary smoothness given source =
      .ok (start, source')) :
    ∃ seed, seedPoint lower upper given = .ok seed ∧ ∀ (i : ℕ) a l u, binary[i]? = some true →
      seed[i]? = some a → lower[i]? = some l → upper[i]? = some u → start[i]? =
        some (min (max a (l + config.effectiveAscentStop)) (u - config.effectiveAscentStop)) := by
  obtain ⟨ascent, seed, gradient, x, hseed, hfree, hclimb, hsettle⟩ := exists_climb_of_compute h
  refine ⟨seed, hseed, fun i a l u hbinary ha hl hu => ?_⟩
  have hx : x[i]? = some a := by
    rw [← ha]
    apply Ascent.getElem?_of_climb _ hclimb
    rw [hfree, hrule]
    exact partner_freedom_eq_zero hbinary
  obtain ⟨-, -, rfl⟩ := Vec.zipExact3_eq_ok.1 hsettle
  simp [List.getElem?_zipWith, List.zip, hl, hu, hx]

end Compute

end StartPoint

/-! ## Given points that are not used -/

section Setup

variable [RandomSource G ℝ] {definition : Definition ℝ} {draft : Settings ℝ} {config : Config ℝ}
  {prepared : Prepared ℝ}

/-- A point of the right length that is not strictly inside the box is as good as none. -/
lemma setup_of_not_strictlyInside {point : Vec ℝ}
    (hlength : point.length = definition.lower.length)
    (h : Vec.strictlyInside definition.lower definition.upper point = false) :
    setup G { definition with start := some point } config =
      setup G { definition with start := none } config := by
  have hframe : { definition with start := some point }.frame =
      { definition with start := none }.frame := by
    simp only [Definition.frame, Definition.checkStart, hlength, if_true]
  have hseed : StartPoint.seedPoint definition.lower definition.upper (some point) =
      StartPoint.seedPoint definition.lower definition.upper none := by
    simp [StartPoint.seedPoint, h]
  have hcompute (binary : List Bool) (smoothness : ℝ) (source : G) :
      StartPoint.compute config definition.objective definition.lower definition.upper binary
        smoothness (some point) source =
      StartPoint.compute config definition.objective definition.lower definition.upper binary
        smoothness none source := by
    simp only [StartPoint.compute, hseed]
  unfold setup
  rw [hframe]
  simp only [hcompute]
  rfl

/-! ## The start point of a wide box -/

/-- A point has each of its coordinates strictly between the bounds. -/
def Problem.StrictlyContains (problem : Problem ℝ) (x : Vec ℝ) : Prop :=
  ∀ i : Fin problem.dimension, Vec.coords _ x i ∈
    Set.Ioo (Vec.coords _ problem.lower i) (Vec.coords _ problem.upper i)

/-- The point from which the ascent starts: the given point where it lies strictly inside the box,
the midpoint otherwise. -/
structure Problem.IsSeed (problem : Problem ℝ) (given : Option (Vec ℝ)) (seed : Vec ℝ) : Prop where
  /-- The seed has an entry for each variable. -/
  length_eq : seed.length = problem.dimension
  /-- A given point strictly inside the box is the seed. -/
  of_strictlyContains : ∀ point ∈ given, problem.StrictlyContains point → seed = point
  /-- Without such a point the seed is half way between the bounds. -/
  of_not_strictlyContains : (∀ point ∈ given, ¬problem.StrictlyContains point) → ∀ i,
    Vec.coords problem.dimension seed i =
      (Vec.coords _ problem.lower i + Vec.coords _ problem.upper i) / 2

omit [RandomSource G ℝ] in
/-- The midpoint, in coordinates. -/
lemma coords_boxMidpoint {lower upper midpoint : Vec ℝ} (hlower : lower.length = n)
    (hupper : upper.length = n) (h : boxMidpoint lower upper = .ok midpoint) (i : Fin n) :
    Vec.coords n midpoint i = (Vec.coords n lower i + Vec.coords n upper i) / 2 := by
  obtain ⟨-, rfl⟩ := Vec.zipExact_eq_ok.1 h
  rw [Vec.coords_zipWith hlower hupper]
  norm_num
  ring

/-- The ascent starts from the seed. -/
lemma Problem.isSeed_of_seedPoint {problem : Problem ℝ} {given : Option (Vec ℝ)} {seed : Vec ℝ}
    (hproblem : problem.WellFormed) (hgiven : ∀ point ∈ given, point.length = problem.dimension)
    (h : StartPoint.seedPoint problem.lower problem.upper given = .ok seed) :
    problem.IsSeed given seed := by
  have hmidpoint (hseed : boxMidpoint problem.lower problem.upper = .ok seed) :
      seed.length = problem.dimension ∧ ∀ i, Vec.coords problem.dimension seed i =
        (Vec.coords _ problem.lower i + Vec.coords _ problem.upper i) / 2 :=
    ⟨(Vec.length_of_zipExact hseed).1, coords_boxMidpoint rfl hproblem.length_upper hseed⟩
  cases given with
  | none =>
    obtain ⟨hlength, hcoords⟩ := hmidpoint h
    exact ⟨hlength, nofun, fun _ => hcoords⟩
  | some point =>
    have hpoint : point.length = problem.dimension := hgiven point rfl
    have hinside : Vec.strictlyInside problem.lower problem.upper point = true ↔
        problem.StrictlyContains point := Vec.strictlyInside_iff rfl hproblem.length_upper hpoint
    simp only [StartPoint.seedPoint] at h
    split_ifs at h with hcontains
    · obtain rfl := Except.ok.inj h
      refine ⟨hpoint, ?_, fun hnot => absurd (hinside.1 hcontains) (hnot point rfl)⟩
      rintro _ ⟨⟩ -
      rfl
    · obtain ⟨hlength, hcoords⟩ := hmidpoint h
      refine ⟨hlength, ?_, fun _ => hcoords⟩
      rintro _ ⟨⟩ hpoint
      exact absurd (hinside.2 hpoint) hcontains

/-- Coordinates that are clear of both bounds are not absorbed. -/
lemma Dynamics.absorb_eq_self {d : Dynamics ℝ} {distance : ℝ} {x : Vec ℝ}
    (hproblem : d.problem.WellFormed) (hx : x.length = d.problem.dimension)
    (habsorption : d.config.absorption = some distance)
    (h : ∀ i : Fin d.problem.dimension, Vec.coords _ x i ∈
      Set.Icc (Vec.coords _ d.problem.lower i + distance)
        (Vec.coords _ d.problem.upper i - distance)) : d.absorb x = .ok x := by
  obtain ⟨y, hy, hlength⟩ := Vec.returns_zipExact4 (f := absorbed distance) hx
    (rfl : d.problem.lower.length = d.problem.dimension) hproblem.length_upper
    hproblem.length_midpoint
  have hxy : y = x := by
    apply Vec.eq_of_coords_eq hlength hx
    funext i
    obtain ⟨-, -, hcoords⟩ := Vec.coords_of_zipExact4 (n := d.problem.dimension) hy rfl
    have hclear : ¬min (Vec.coords d.problem.dimension x i - Vec.coords _ d.problem.lower i)
        (Vec.coords _ d.problem.upper i - Vec.coords _ x i) < distance :=
      not_lt.2 (le_min (le_sub_iff_add_le'.2 (h i).1) (le_sub_comm.1 (h i).2))
    rw [hcoords, absorbed, Scalar.minNum_real, if_neg hclear]
  simp only [absorb, habsorption]
  rw [hy, hxy]

/-- The start point of a problem has been computed from the parts of its definition. -/
lemma exists_compute_of_setup (h : setup G definition config = .ok prepared) :
    prepared.problem.lower = definition.lower ∧ prepared.problem.upper = definition.upper ∧
      (∀ point ∈ definition.start, point.length = prepared.problem.dimension) ∧
      ∃ source source' : G, StartPoint.compute config definition.objective prepared.problem.lower
        prepared.problem.upper prepared.problem.binary prepared.problem.smoothness
        definition.start source = .ok (prepared.problem.start, source') := by
  obtain ⟨frame, smoothness, -, gain, start, midpoint, source, source', hframe, -, -, -, hstart, -,
    hproblem⟩ := setup_eq_ok h
  rw [hproblem]
  exact ⟨rfl, rfl, (Definition.frame_eq_ok.1 hframe).length_start, source, source', hstart⟩

/-- Where the ends of the shrunk box have not crossed, the start point lies between them. -/
lemma coords_start_mem_Icc (hsetup : setup G definition config = .ok prepared)
    {i : Fin prepared.problem.dimension} (hwide : 2 * config.effectiveAscentStop ≤
      Vec.coords _ prepared.problem.upper i - Vec.coords _ prepared.problem.lower i) :
    Vec.coords _ prepared.problem.start i ∈
      Set.Icc (Vec.coords _ prepared.problem.lower i + config.effectiveAscentStop)
        (Vec.coords _ prepared.problem.upper i - config.effectiveAscentStop) := by
  have hproblem := wellFormed_of_setup hsetup
  obtain ⟨x, hx⟩ := settled_of_setup hsetup (Vec.getElem?_eq_coords rfl i)
    (Vec.getElem?_eq_coords hproblem.length_upper i)
  rw [Vec.getElem?_eq_coords hproblem.length_start i, Option.some.injEq] at hx
  rw [hx]
  exact ⟨le_min (le_max_right _ _) (by linarith), min_le_right _ _⟩

/-- After a neutral ascent binary coordinates have settled from the seed. -/
lemma exists_isSeed_of_setup (hsetup : setup G definition config = .ok prepared)
    (hrule : config.startAscent = .binaryNeutralAscent) :
    ∃ seed, prepared.problem.IsSeed definition.start seed ∧
      ∀ i : Fin prepared.problem.dimension, prepared.problem.binary[(i : ℕ)]? = some true →
        Vec.coords _ prepared.problem.start i = min
          (max (Vec.coords _ seed i)
            (Vec.coords _ prepared.problem.lower i + config.effectiveAscentStop))
          (Vec.coords _ prepared.problem.upper i - config.effectiveAscentStop) := by
  have hproblem := wellFormed_of_setup hsetup
  obtain ⟨-, -, hgiven, source, source', hcompute⟩ := exists_compute_of_setup hsetup
  obtain ⟨seed, hseed, hsettled⟩ := StartPoint.getElem?_of_compute_neutral hrule hcompute
  have hisSeed := Problem.isSeed_of_seedPoint hproblem hgiven hseed
  refine ⟨seed, hisSeed, fun i hbinary => ?_⟩
  have hstart := hsettled i _ _ _ hbinary (Vec.getElem?_eq_coords hisSeed.length_eq i)
    (Vec.getElem?_eq_coords rfl i) (Vec.getElem?_eq_coords hproblem.length_upper i)
  rw [Vec.getElem?_eq_coords hproblem.length_start i, Option.some.injEq] at hstart
  exact hstart

/-- The start point of a wide box: a point of the shrunk box, with binary coordinates from the seed
if the ascent is to leave them alone.  A given point that is not strictly inside the box does not
matter, and absorption leaves the start point as it is. -/
theorem start_of_wide_box (hbuild : draft.build = .ok config)
    (hsetup : setup G definition config = .ok prepared)
    (hwide : ∀ i : Fin prepared.problem.dimension, 2 * config.effectiveAscentStop ≤
      Vec.coords _ prepared.problem.upper i - Vec.coords _ prepared.problem.lower i) :
    (∀ i : Fin prepared.problem.dimension, Vec.coords _ prepared.problem.start i ∈
      Set.Icc (Vec.coords _ prepared.problem.lower i + config.effectiveAscentStop)
        (Vec.coords _ prepared.problem.upper i - config.effectiveAscentStop)) ∧
    (config.startAscent = .binaryNeutralAscent →
      ∃ seed, prepared.problem.IsSeed definition.start seed ∧
        ∀ i : Fin prepared.problem.dimension, prepared.problem.binary[(i : ℕ)]? = some true →
          Vec.coords _ prepared.problem.start i = min
            (max (Vec.coords _ seed i)
              (Vec.coords _ prepared.problem.lower i + config.effectiveAscentStop))
            (Vec.coords _ prepared.problem.upper i - config.effectiveAscentStop)) ∧
    (∀ point : Vec ℝ, point.length = prepared.problem.dimension →
      ¬prepared.problem.StrictlyContains point →
        setup G { definition with start := some point } config =
          setup G { definition with start := none } config) ∧
    (config.ascentStop.isSome → config.absorption.isSome → ∀ d : Dynamics ℝ,
      d.problem = prepared.problem → d.config = config →
        d.absorb prepared.problem.start = .ok prepared.problem.start) := by
  have hproblem := wellFormed_of_setup hsetup
  refine ⟨fun i => coords_start_mem_Icc hsetup (hwide i), exists_isSeed_of_setup hsetup, ?_, ?_⟩
  · intro point hpoint hnot
    obtain ⟨hlower, hupper, -⟩ := exists_compute_of_setup hsetup
    apply setup_of_not_strictlyInside (hpoint.trans (congrArg List.length hlower))
    rw [← Bool.not_eq_true, ← hlower, ← hupper,
      Vec.strictlyInside_iff rfl hproblem.length_upper hpoint]
    exact hnot
  · intro hascent habsorption d hd hconfig
    obtain ⟨ascent, hascent⟩ := Option.isSome_iff_exists.1 hascent
    obtain ⟨distance, habsorption⟩ := Option.isSome_iff_exists.1 habsorption
    have hle := Config.absorption_le_effectiveAscentStop hbuild hascent habsorption
    obtain ⟨problem, _, _, _, _⟩ := d
    obtain rfl : problem = prepared.problem := hd
    obtain rfl := hconfig
    apply Dynamics.absorb_eq_self hproblem hproblem.length_start habsorption
    intro i
    obtain ⟨hlow, hhigh⟩ := coords_start_mem_Icc hsetup (hwide i)
    exact ⟨(add_le_add_right hle _).trans hlow, hhigh.trans (sub_le_sub_left hle _)⟩

end Setup

/-! ## A slope with a binary and a continuous variable -/

namespace MixedSlope

/-- A slope over the unit square whose first variable is binary, with a point to start from. -/
noncomputable def definition : Definition ℝ :=
  { Definition.ofBox (Landscape.linear [1, 0.125]) [0, 0] [1, 1] with
    mask := some [1, 0]
    smoothness := some 1
    start := some [0.6, 0.5] }

/-- A neutral ascent that stops a quarter of a side away from the bounds. -/
noncomputable def draft : Settings ℝ :=
  { Settings.standard with
    startAscent := .binaryNeutralAscent
    ascentStop := some 0.25
    absorption := some 0.1 }

/-- The slope as a problem. -/
noncomputable def problem : Problem ℝ where
  objective := Landscape.linear [1, 0.125]
  lower := [0, 0]
  upper := [1, 1]
  midpoint := [0.5, 0.5]
  binary := [true, false]
  equalities := none
  inequalities := none
  equalityPenalty := 0.0
  inequalityPenalty := 0.0
  smoothness := 1
  start := [0.6, 0.75]
  gain := [1, 1]
  equalityDual := none
  inequalityDual := none

lemma inRange_draft : draft.InRange :=
  { Settings.inRange_standard with
    ascentStop := by norm_num [draft]
    absorption := by norm_num [draft] }

/-- Absorption does not move the stop. -/
lemma effectiveAscentStop_draft : Config.effectiveAscentStop ⟨draft⟩ = 0.25 :=
  Config.effectiveAscentStop_of_lt rfl (by norm_num [draft])

/-- The ascent in the shrunk square. -/
noncomputable def ascent : StartPoint.Ascent ℝ where
  objective := Landscape.linear [1, 0.125]
  low := [0.25, 0.25]
  high := [0.75, 0.75]
  free := [0, 1]
  rate := 1
  floor := StartPoint.gradientFloor / 2.0

/-- Inside the shrunk square a step moves the second coordinate only. -/
lemma climb_succ (steps : ℕ) {a : ℝ} (ha : a ∈ Set.Ioo 0.25 0.75) :
    ascent.climb (steps + 1) [0.6, a] [1, 0.125] =
      ascent.climb steps [0.6, a + 0.125] [1, 0.125] := by
  obtain ⟨hlow, hhigh⟩ := ha
  have hsteep : 1 < Vec.norm [(1 : ℝ), 0.125] := by
    rw [Vec.norm, Scalar.sqrt_real, Real.lt_sqrt zero_le_one]
    norm_num [Vec.inner, Vec.sum]
  have hfloor : ascent.floor < 1 := by norm_num [ascent, StartPoint.gradientFloor]
  have hinside : Vec.strictlyInside ascent.low ascent.high [0.6, a] = true := by
    simp only [ascent, Vec.strictlyInside]
    norm_num at hlow hhigh ⊢
    exact ⟨hlow, hhigh⟩
  have hover : ascent.isOver [0.6, a] [1, 0.125] = false := by
    simp [StartPoint.Ascent.isOver, hinside, hfloor.trans hsteep]
  have hmul : Vec.mul [(1 : ℝ), 0.125] ascent.free = .ok [0, 0.125] := by
    simp [Vec.mul, ascent, Vec.zipSpread]
  have hshift : Vec.shiftScaled [0.6, a] ascent.rate [0, 0.125] = .ok [0.6, a + 0.125] := by
    simp [Vec.shiftScaled, ascent, Vec.zipOnto]
  have hgradient : ascent.objective.gradient [0.6, a + 0.125] = .ok [1, 0.125] := rfl
  simp only [StartPoint.Ascent.climb, hover, hmul, hshift, hgradient, Outcome.ok_bind,
    Bool.false_eq_true, if_false]

lemma setup_definition :
    ∃ notices, setup Unit definition ⟨draft⟩ = .ok ⟨problem, notices⟩ := by
  have hframe : definition.frame = .ok ⟨[true, false], none, none, none, none⟩ := by
    unfold Definition.frame definition
    simp [Definition.ofBox, Definition.badBounds?, Definition.boundsEnclose, Definition.checkMask,
      Definition.checkBlock, Definition.checkPenalty, Definition.checkDual, Definition.checkStart,
      List.findIdx?_cons, Outcome.ok_bind]
  have hsmoothness : definition.findSmoothness () = .ok (1, [], ()) := rfl
  have hgain := Config.coordinateGains_of_uniform ⟨draft⟩ rfl [true, false]
  have hmidpoint : boxMidpoint definition.lower definition.upper = .ok [0.5, 0.5] := by
    simp [boxMidpoint, definition, Definition.ofBox, Vec.zipExact, Breach.sameLength]
  have hstart : StartPoint.compute ⟨draft⟩ definition.objective definition.lower definition.upper
      [true, false] 1 definition.start () = .ok ([0.6, 0.75], ()) := by
    have hseed : StartPoint.seedPoint definition.lower definition.upper definition.start =
        .ok [0.6, 0.5] := by
      have hinside : Vec.strictlyInside [0, 0] [1, 1] [(0.6 : ℝ), 0.5] = true := by
        simp only [Vec.strictlyInside]
        norm_num
      simp only [StartPoint.seedPoint, definition, Definition.ofBox, hinside, if_true]
    have hgradient : definition.objective.gradient [0.6, 0.5] = .ok [1, 0.125] := rfl
    have hzero : Vec.isZero [(1 : ℝ), 0.125] = false := by simp [Vec.isZero]
    have hclimb : ascent.climb StartPoint.maxSteps [0.6, 0.5] [1, 0.125] = .ok [0.6, 0.75] := by
      rw [show StartPoint.maxSteps = 998 + 1 + 1 from rfl, climb_succ _ (by norm_num),
        climb_succ _ (by norm_num), StartPoint.Ascent.climb_of_isOver]
      · norm_num
      · simp [StartPoint.Ascent.isOver, Vec.strictlyInside, ascent]
        norm_num
    have hascent : ascent =
        { objective := definition.objective
          low := definition.lower.map (· + Config.effectiveAscentStop ⟨draft⟩)
          high := definition.upper.map (· - Config.effectiveAscentStop ⟨draft⟩)
          free := StartPoint.freedom draft.startAscent [true, false]
          rate := 1.0 / 1
          floor := StartPoint.gradientFloor / Scalar.ofNat definition.lower.length } := by
      rw [effectiveAscentStop_draft]
      simp [ascent, definition, Definition.ofBox, draft, StartPoint.freedom]
      norm_num
    rw [hascent] at hclimb
    simp only [StartPoint.compute, hseed, hgradient, hzero, Outcome.ok_bind, Bool.false_eq_true,
      if_false, hclimb]
    rw [StartPoint.Ascent.settle, effectiveAscentStop_draft]
    simp [definition, Definition.ofBox, Vec.zipExact3, Vec.zipExact, Breach.sameLength,
      Outcome.ok_bind]
    norm_num
  exact ⟨_, setup_eq hframe hsmoothness (by simp) hgain hstart hmidpoint⟩

end MixedSlope

/-- From the given point the continuous variable climbs to the edge of the shrunk square, while the
binary one stays.  Absorption leaves both alone. -/
theorem start_of_wide_box_mixedSlope : ∃ prepared : Prepared ℝ,
    MixedSlope.draft.build = .ok ⟨MixedSlope.draft⟩ ∧
    setup Unit MixedSlope.definition ⟨MixedSlope.draft⟩ = .ok prepared ∧
    (∀ i : Fin prepared.problem.dimension,
      2 * Config.effectiveAscentStop ⟨MixedSlope.draft⟩ ≤
        Vec.coords _ prepared.problem.upper i - Vec.coords _ prepared.problem.lower i) ∧
    prepared.problem.start = [0.6, 0.75] ∧
    (∃ seed, prepared.problem.IsSeed (some [0.6, 0.5]) seed ∧
      ∀ i : Fin prepared.problem.dimension, prepared.problem.binary[(i : ℕ)]? = some true →
        Vec.coords _ prepared.problem.start i = min
          (max (Vec.coords _ seed i) (Vec.coords _ prepared.problem.lower i + 0.25))
          (Vec.coords _ prepared.problem.upper i - 0.25)) ∧
    setup Unit { MixedSlope.definition with start := some [0.6, 5] } ⟨MixedSlope.draft⟩ =
      setup Unit { MixedSlope.definition with start := none } ⟨MixedSlope.draft⟩ ∧
    ∀ d : Dynamics ℝ, d.problem = prepared.problem → d.config = ⟨MixedSlope.draft⟩ →
      d.absorb prepared.problem.start = .ok prepared.problem.start := by
  have hstop := MixedSlope.effectiveAscentStop_draft
  obtain ⟨notices, hsetup⟩ := MixedSlope.setup_definition
  have hbuild := Settings.build_of_inRange MixedSlope.inRange_draft
  have hwide (i : Fin MixedSlope.problem.dimension) :
      2 * Config.effectiveAscentStop ⟨MixedSlope.draft⟩ ≤
        Vec.coords _ MixedSlope.problem.upper i - Vec.coords _ MixedSlope.problem.lower i := by
    have hside : Vec.coords _ MixedSlope.problem.upper i -
        Vec.coords _ MixedSlope.problem.lower i = 1 := by
      obtain ⟨_ | _ | i, hi⟩ := i
      · norm_num [Vec.coords, MixedSlope.problem]
      · norm_num [Vec.coords, MixedSlope.problem]
      · simp [Problem.dimension, MixedSlope.problem] at hi
    rw [hside, hstop]
    norm_num
  have houtside : ¬MixedSlope.problem.StrictlyContains [0.6, 5] := by
    intro h
    have := (h ⟨1, Nat.one_lt_two⟩).2
    norm_num [Vec.coords, MixedSlope.problem] at this
  obtain ⟨-, hneutral, hgiven, habsorb⟩ := start_of_wide_box hbuild hsetup hwide
  rw [hstop] at hneutral
  exact ⟨_, hbuild, hsetup, hwide, rfl, hneutral rfl, hgiven [0.6, 5] rfl houtside,
    habsorb rfl rfl⟩

end HopfieldDescent
