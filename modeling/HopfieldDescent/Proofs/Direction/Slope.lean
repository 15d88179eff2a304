import Mathlib
import HopfieldDescent.Direction
import HopfieldDescent.Proofs.Config.Accepted
import HopfieldDescent.Proofs.Problem.WellFormed
import HopfieldDescent.Proofs.Squashing.Proxy
import HopfieldDescent.Proofs.Vec.Spread

/-!
# Directions do not go up

The slope of a direction is its inner product with the gradient weighted by the proxy distance.  It
is never positive for the plain descent and for the binary rules.  Plain descent goes against the
gradient in every coordinate that it moves.  A blend may go anywhere, but it is bent towards the
weighted descent until it does not go up any more, whatever was pulled and however strongly.

The mask of absorption does not interfere: it only stops coordinates on a bound, where the proxy
distance vanishes (`proxy_mul_maskAt`), so that the slope is the one without a mask.
-/

open scoped Matrix

namespace HopfieldDescent

/-- The angle of every accepted configuration lies in the unit interval. -/
lemma Config.theta_mem_Icc {draft : Settings ℝ} {config : Config ℝ}
    (h : draft.build = .ok config) : config.theta ∈ Set.Icc 0 1 := by
  obtain ⟨rfl, hrange⟩ := Settings.inRange_of_build h
  simpa using hrange.theta

namespace Direction

variable {n : ℕ} {v z gradient : Vec ℝ} {mask : Option (Vec ℝ)}

/-! ## Masks -/

/-- The factor that a mask puts on the coordinate with number `i`. -/
def maskAt (mask : Option (Vec ℝ)) (i : ℕ) : ℝ := mask.elim 1 fun mask => Vec.partner mask i

/-- A masked vector keeps its length, and each coordinate is multiplied by its factor. -/
lemma coords_of_masked (h : masked v mask = .ok z) (hz : z.length = n) :
    v.length = n ∧ ∀ i : Fin n, Vec.coords n z i = Vec.coords n v i * maskAt mask i := by
  cases mask with
  | none =>
    obtain rfl := Except.ok.inj h
    exact ⟨hz, fun i => (mul_one _).symm⟩
  | some mask =>
    have hv : v.length = n := (Vec.length_of_zipOnto h).symm.trans hz
    exact ⟨hv, Vec.coords_of_zipOnto h hv⟩

/-- The coordinates of the masked descent. -/
lemma coords_of_descent (h : descent gradient mask = .ok z) (hz : z.length = n) (i : Fin n) :
    Vec.coords n z i = -Vec.partner gradient i * maskAt mask i := by
  cases mask with
  | none =>
    obtain rfl := Except.ok.inj h
    rw [← Vec.partner_eq_coords hz, Vec.partner_neg]
    exact (mul_one _).symm
  | some mask =>
    rw [Vec.coords_of_zipSpread h hz, Vec.partner_neg]
    rfl

section Problem

variable {problem : Problem ℝ} {activation : Activation} {x proxy mask : Vec ℝ}

/-- A mask only stops coordinates on a bound. -/
lemma coords_of_absorptionMask (hproblem : problem.WellFormed)
    (h : absorptionMask problem x = .ok mask) :
    mask.length = problem.dimension ∧ ∀ i : Fin problem.dimension, Vec.coords _ mask i = 1 ∨
      Vec.coords _ x i = Vec.coords _ problem.lower i ∨
        Vec.coords _ x i = Vec.coords _ problem.upper i := by
  obtain ⟨hx, -⟩ := Vec.zipExact4_eq_ok.1 h
  have hlength : mask.length = problem.dimension := (Vec.length_of_zipExact4 h).trans hx
  have hlower : problem.lower.length = problem.dimension := rfl
  refine ⟨hlength, fun i => ?_⟩
  obtain ⟨isBinary, hisBinary⟩ : ∃ isBinary, problem.binary[(i : ℕ)]? = some isBinary :=
    ⟨_, List.getElem?_eq_getElem (by rw [hproblem.length_binary]; exact i.isLt)⟩
  have hentry := Vec.getElem?_of_zipExact4 h (Vec.getElem?_eq_coords (hx.trans hlower) i)
    (Vec.getElem?_eq_coords hlower i) (Vec.getElem?_eq_coords hproblem.length_upper i) hisBinary
  rw [Vec.getElem?_eq_coords hlength i, Option.some.injEq] at hentry
  rw [hentry]
  split_ifs with hstopped
  · right
    rw [Bool.and_eq_true] at hstopped
    simpa using hstopped.2
  · left
    exact Scalar.literal_one

/-- The proxy distance vanishes where the mask stops a coordinate. -/
lemma proxy_mul_maskAt (hproblem : problem.WellFormed)
    (hproxy : (problem.boxMap activation).proxyDistance x = .ok proxy) {mask : Option (Vec ℝ)}
    (hmask : ∀ m ∈ mask, absorptionMask problem x = .ok m) (i : ℕ) :
    Vec.partner proxy i * maskAt mask i = Vec.partner proxy i := by
  cases mask with
  | none => exact mul_one _
  | some mask =>
    obtain ⟨hlength, hcoords⟩ := coords_of_absorptionMask hproblem (hmask mask rfl)
    have hlower : problem.lower.length = problem.dimension := rfl
    obtain ⟨-, hproxyLength, -⟩ := Vec.coords_of_zipExact4 hproxy hlower
    simp only [maskAt, Option.elim_some]
    rcases Vec.partner_eq_coords_or_zero problem.dimension i with ⟨j, hpartner⟩ | hpartner
    · rw [hpartner proxy hproxyLength, hpartner mask hlength]
      rcases hcoords j with hone | hbound
      · rw [hone, mul_one]
      · have hlt := hproblem.lower_lt_upper (Vec.getElem?_eq_coords hlower j)
          (Vec.getElem?_eq_coords hproblem.length_upper j)
        rw [BoxMap.coords_proxyDistance_eq_zero hlower hlt hproxy hbound, zero_mul]
    · rw [hpartner proxy hproxyLength, zero_mul]

/-- No partner of a proxy distance is negative. -/
lemma partner_proxy_nonneg (hproblem : problem.WellFormed)
    (hproxy : (problem.boxMap activation).proxyDistance x = .ok proxy) (i : ℕ) :
    0 ≤ Vec.partner proxy i := by
  obtain ⟨-, hproxyLength, -⟩ := Vec.coords_of_zipExact4 hproxy rfl
  have hgain (j : Fin problem.dimension) : 0 < Vec.coords _ problem.gain j := by
    simpa using hproblem.gain_isPositive _ (Vec.coords_mem hproblem.length_gain j)
  rcases Vec.partner_eq_coords_or_zero problem.dimension i with ⟨j, hpartner⟩ | hpartner
  · rw [hpartner proxy hproxyLength]
    exact BoxMap.coords_proxyDistance_nonneg rfl hgain hproxy j
  · exact (hpartner proxy hproxyLength).ge

end Problem

/-! ## Slopes -/

section Slopes

variable {proxy weighted direction : Vec ℝ}

/-- The slope of plain descent: every coordinate goes against its own entry of the gradient. -/
lemma dotProduct_descent_nonpos (hproxy : ∀ i, 0 ≤ Vec.partner proxy i)
    (hmask : ∀ i, Vec.partner proxy i * maskAt mask i = Vec.partner proxy i)
    (hweighted : Vec.mul proxy gradient = .ok weighted) (hlength : weighted.length = n)
    (hdescent : descent gradient mask = .ok z) (hz : z.length = n) :
    Vec.coords n weighted ⬝ᵥ Vec.coords n z ≤ 0 := by
  refine Finset.sum_nonpos fun i _ => ?_
  rw [Vec.coords_of_zipSpread hweighted hlength, coords_of_descent hdescent hz]
  calc Vec.partner proxy i * Vec.partner gradient i * (-Vec.partner gradient i * maskAt mask i)
      = -(Vec.partner proxy i * maskAt mask i * Vec.partner gradient i ^ 2) := by ring
    _ = -(Vec.partner proxy i * Vec.partner gradient i ^ 2) := by rw [hmask]
    _ ≤ 0 := neg_nonpos.2 (mul_nonneg (hproxy i) (sq_nonneg _))

/-- A bend makes up for what the blend goes up. -/
lemma neg_inner_le_bend {theta : ℝ} (htheta : theta ∈ Set.Icc 0 1) (g w : Vec ℝ) :
    -Vec.inner g w ≤ bend theta g w := by
  have htan : 0 ≤ Real.tan theta :=
    Real.tan_nonneg_of_nonneg_of_le_pi_div_two htheta.1 (htheta.2.trans Real.one_le_pi_div_two)
  simp only [bend, Scalar.maxNum_real, Scalar.sqrt_real, Scalar.tan_real]
  refine le_max_of_le_left (le_add_of_nonneg_right ?_)
  exact mul_nonneg htan (Real.sqrt_nonneg _)

/-- The slope of a blend, once bent: what it goes up is made up for along the weighted descent. -/
lemma dotProduct_blended_nonpos {map : BoxMap ℝ} {gamma theta : ℝ} {x pull : Vec ℝ}
    (htheta : theta ∈ Set.Icc 0 1) (hproxy : map.proxyDistance x = .ok proxy)
    (hmask : ∀ i, Vec.partner proxy i * maskAt mask i = Vec.partner proxy i)
    (hweighted : Vec.mul proxy gradient = .ok weighted) (hlength : weighted.length = n)
    (hblended : blended map gamma theta x gradient pull mask = .ok z) (hz : z.length = n) :
    Vec.coords n weighted ⬝ᵥ Vec.coords n z ≤ 0 := by
  simp only [blended, Outcome.bind_eq_ok, Breach.sameLength_eq_ok] at hblended
  obtain ⟨proxy', hproxy', weighted', hweighted', _, -, _, -, w, -, _, hsame, shifted, hshift,
    hmasked⟩ := hblended
  obtain rfl : proxy = proxy' := Except.ok.inj (hproxy.symm.trans hproxy')
  obtain rfl : weighted = weighted' := Except.ok.inj (hweighted.symm.trans hweighted')
  obtain ⟨hshifted, hcoords⟩ := coords_of_masked hmasked hz
  have hw : w.length = n := (Vec.length_of_zipOnto hshift).symm.trans hshifted
  have hneg : (Vec.neg weighted).length = n := by simpa [Vec.neg] using hlength
  have hg : (Vec.normalize (Vec.neg weighted)).length = n := hsame.trans hw
  set g := Vec.normalize (Vec.neg weighted)
  set turn := bend theta g w
  -- the gradient goes along the unit vector, and the mask does not change the slope
  have hunit (i : Fin n) : Vec.coords n weighted i =
      -(Vec.norm (Vec.neg weighted) * Vec.coords n g i) := by
    rw [Vec.norm_mul_coords_normalize hneg i, Vec.neg, Vec.coords_map hlength, neg_neg]
  have hterm (i : Fin n) : Vec.coords n weighted i * Vec.coords n z i =
      Vec.coords n weighted i * (Vec.coords n w i + turn * Vec.coords n g i) := by
    rw [hcoords, Vec.coords_of_zipOnto hshift hw, Vec.partner_eq_coords hg,
      Vec.coords_of_zipSpread hweighted hlength]
    calc Vec.partner proxy i * Vec.partner gradient i *
          ((Vec.coords n w i + turn * Vec.coords n g i) * maskAt mask i)
        = Vec.partner proxy i * maskAt mask i * Vec.partner gradient i *
          (Vec.coords n w i + turn * Vec.coords n g i) := by ring
      _ = _ := by rw [hmask]
  have hslope : Vec.coords n weighted ⬝ᵥ Vec.coords n z = -(Vec.norm (Vec.neg weighted) *
      (Vec.coords n g ⬝ᵥ Vec.coords n w + turn * (Vec.coords n g ⬝ᵥ Vec.coords n g))) := by
    calc Vec.coords n weighted ⬝ᵥ Vec.coords n z
        = ∑ i, -(Vec.norm (Vec.neg weighted) * (Vec.coords n g i * Vec.coords n w i +
            turn * (Vec.coords n g i * Vec.coords n g i))) := by
          refine Finset.sum_congr rfl fun i _ => ?_
          rw [hterm, hunit]
          ring
      _ = _ := by
          simp only [dotProduct, Finset.sum_neg_distrib, ← Finset.mul_sum, Finset.sum_add_distrib]
  rw [hslope, neg_nonpos]
  by_cases hzero : Vec.norm (Vec.neg weighted) = 0
  · rw [hzero, zero_mul]
  · refine mul_nonneg (Vec.norm_nonneg _) ?_
    have hbend := neg_inner_le_bend htheta g w
    rw [Vec.inner_eq_dotProduct hg hw] at hbend
    rw [Vec.normalize_dotProduct_self hneg hzero, mul_one]
    linarith

end Slopes

section Find

variable {G : Type} [RandomSource G ℝ] {problem : Problem ℝ} {config : Config ℝ} {map : BoxMap ℝ}
  {x direction : Vec ℝ} {source source' : G}

/-- A direction that does not depend on chance is the unit vector of a masked descent or blend. -/
lemma exists_of_find (hrule : config.direction ≠ .stochastic)
    (h : find problem map config x gradient source = .ok (direction, source')) :
    ∃ mask d, (∀ m ∈ mask, absorptionMask problem x = .ok m) ∧ Vec.normalize d = direction ∧
      (descent gradient mask = .ok d ∨
        ∃ pull, blended map config.gamma config.theta x gradient pull mask = .ok d) := by
  have hstops (m : Vec ℝ) (hm : absorptionMask problem x = .ok m) :
      ∀ m' ∈ some m, absorptionMask problem x = .ok m' := by
    rintro _ ⟨⟩
    exact hm
  cases hdirection : config.direction with
  | classic =>
    simp only [find, hdirection, ite_eq_iff, Outcome.bind_eq_ok, Outcome.map_eq_ok,
      Outcome.pure_eq_ok, Except.ok.injEq, Prod.mk.injEq] at h
    obtain ⟨-, _, ⟨m, hm, rfl⟩, d, hd, hunit, -⟩ | ⟨-, _, rfl, d, hd, hunit, -⟩ := h
    · exact ⟨some m, d, hstops m hm, hunit, .inl hd⟩
    · exact ⟨none, d, nofun, hunit, .inl hd⟩
  | stochastic => exact absurd hdirection hrule
  | binary | softBinary =>
    simp only [find, hdirection, ite_eq_iff, Outcome.bind_eq_ok, Outcome.map_eq_ok,
      Outcome.pure_eq_ok, Except.ok.injEq, Prod.mk.injEq] at h
    obtain ⟨-, _, ⟨m, hm, rfl⟩, pull, -, d, hd, hunit, -⟩ |
      ⟨-, _, rfl, pull, -, d, hd, hunit, -⟩ := h
    · exact ⟨some m, d, hstops m hm, hunit, .inr ⟨pull, hd⟩⟩
    · exact ⟨none, d, nofun, hunit, .inr ⟨pull, hd⟩⟩

/-- Every rule finds a direction of length zero or one. -/
lemma norm_of_find (h : find problem map config x gradient source = .ok (direction, source')) :
    Vec.norm direction = 0 ∨ Vec.norm direction = 1 := by
  by_cases hrule : config.direction = .stochastic
  · simp only [find, hrule, ite_eq_iff, Outcome.bind_eq_ok, Outcome.map_eq_ok,
      Outcome.pure_eq_ok, Except.ok.injEq, Prod.mk.injEq] at h
    obtain ⟨-, _, -, d, -, rfl, -⟩ | ⟨-, _, -, d, -, rfl, -⟩ := h
    · exact Vec.norm_normalize _
    · exact Vec.norm_normalize _
  · obtain ⟨_, d, -, rfl, -⟩ := exists_of_find hrule h
    exact Vec.norm_normalize d

/-- The slope of a direction that does not depend on chance is never positive. -/
theorem slope_nonpos {proxy weighted : Vec ℝ} {slope : ℝ} (hproblem : problem.WellFormed)
    (htheta : config.theta ∈ Set.Icc 0 1) (hrule : config.direction ≠ .stochastic)
    (hfind : find problem (problem.boxMap config.activation) config x gradient source =
      .ok (direction, source'))
    (hproxy : (problem.boxMap config.activation).proxyDistance x = .ok proxy)
    (hweighted : Vec.mul proxy gradient = .ok weighted)
    (hslope : Vec.dot weighted direction = .ok slope) : slope ≤ 0 := by
  simp only [Vec.dot, Outcome.bind_eq_ok, Breach.sameLength_eq_ok, Outcome.pure_eq_ok] at hslope
  obtain ⟨-, hlength, rfl⟩ := hslope
  obtain ⟨mask, d, hstops, rfl, hunscaled⟩ := exists_of_find hrule hfind
  have hd : d.length = (Vec.normalize d).length := (Vec.length_normalize d).symm
  have hfactor := proxy_mul_maskAt hproblem hproxy hstops
  have hnonpos : Vec.coords (Vec.normalize d).length weighted ⬝ᵥ Vec.coords _ d ≤ 0 := by
    rcases hunscaled with hdescent | ⟨pull, hblended⟩
    · exact dotProduct_descent_nonpos (partner_proxy_nonneg hproblem hproxy) hfactor hweighted
        hlength hdescent hd
    · exact dotProduct_blended_nonpos htheta hproxy hfactor hweighted hlength hblended hd
  -- the unit vector only changes the size of the slope
  obtain ⟨c, hc, hscaled⟩ := Vec.exists_coords_normalize hd
  have hcoords : Vec.coords _ (Vec.normalize d) = c • Vec.coords (Vec.normalize d).length d :=
    funext hscaled
  rw [Vec.inner_eq_dotProduct hlength rfl, hcoords, dotProduct_smul, smul_eq_mul]
  exact mul_nonpos_of_nonneg_of_nonpos hc.le hnonpos

end Find

end Direction

end HopfieldDescent
