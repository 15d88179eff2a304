import Mathlib
import HopfieldDescent.Proofs.Direction.Slope

/-!
# The angle of a bent blend

The binary rules blend a pull with plain descent and bend the blend `w` towards the unit vector `g`
of the weighted descent.  A bend changes the share of the blend along `g` and leaves the share
across it alone.  It raises the former to the tangent of an angle `θ` times the latter, if it is
below, so that the bent blend keeps at least `θ` away from a right angle with `g`
(`Bend.sin_mul_sqrt_le`).

Only one kind of blend is bent to nothing: one that points against `g` and has no share across it.
The tangent of no angle helps against that (`Bend.bent_eq_zero_iff`).

The direction that a binary rule finds is the unit vector of the bent blend, with absorption as well
as without.  Pull and descent have been masked before they are blended, and the weighted descent
vanishes behind the mask, so that the last mask has nothing left to stop
(`Direction.exists_bent_of_find`).
-/

open scoped Matrix

namespace HopfieldDescent

/-- The rules that blend a pull of the binary coordinates with plain descent. -/
def DirectionRule.Blends (rule : DirectionRule) : Prop := rule = .binary ∨ rule = .softBinary

variable {n : ℕ}

/-! ## Along and across a unit vector -/

namespace Bend

variable {θ : ℝ} {g w : Fin n → ℝ}

/-- The length of the share of `w` across the unit vector `g`. -/
noncomputable def across (g w : Fin n → ℝ) : ℝ := √(w ⬝ᵥ w - (g ⬝ᵥ w) ^ 2)

/-- The blend `w`, bent towards `g`. -/
noncomputable def bent (θ : ℝ) (g w : Fin n → ℝ) : Fin n → ℝ :=
  w + max (-(g ⬝ᵥ w) + Real.tan θ * across g w) 0 • g

lemma across_nonneg (g w : Fin n → ℝ) : 0 ≤ across g w := Real.sqrt_nonneg _

/-- The squared share across a unit vector. -/
lemma across_sq (hg : g ⬝ᵥ g = 1) (w : Fin n → ℝ) : across g w ^ 2 = w ⬝ᵥ w - (g ⬝ᵥ w) ^ 2 :=
  Real.sq_sqrt (sub_nonneg.2 (Vec.sq_dotProduct_le hg w))

/-- A bend raises the share along the unit vector to what the share across it asks for. -/
lemma dotProduct_bent (hg : g ⬝ᵥ g = 1) :
    g ⬝ᵥ bent θ g w = max (Real.tan θ * across g w) (g ⬝ᵥ w) := by
  rw [bent, dotProduct_add, dotProduct_smul, hg, smul_eq_mul, mul_one, ← max_add_add_left,
    add_neg_cancel_left, add_zero]

/-- A bend leaves the share across the unit vector alone. -/
lemma bent_dotProduct_self (hg : g ⬝ᵥ g = 1) :
    bent θ g w ⬝ᵥ bent θ g w = (g ⬝ᵥ bent θ g w) ^ 2 + across g w ^ 2 := by
  rw [across_sq hg]
  simp only [bent, add_dotProduct, dotProduct_add, smul_dotProduct, dotProduct_smul, smul_eq_mul,
    hg, dotProduct_comm w g]
  ring

/-- The bent blend keeps at least the angle away from a right one. -/
lemma sin_mul_sqrt_le (hθ : θ ∈ Set.Icc 0 1) (hg : g ⬝ᵥ g = 1) :
    Real.sin θ * √(bent θ g w ⬝ᵥ bent θ g w) ≤ g ⬝ᵥ bent θ g w := by
  have hlt : θ < Real.pi / 2 := by linarith [hθ.2, Real.pi_gt_three]
  have hcos : 0 < Real.cos θ := Real.cos_pos_of_mem_Ioo ⟨by linarith [hθ.1], hlt⟩
  have hsin : 0 ≤ Real.sin θ := Real.sin_nonneg_of_nonneg_of_le_pi hθ.1
    (by linarith [Real.pi_pos])
  have htan : 0 ≤ Real.tan θ := Real.tan_nonneg_of_nonneg_of_le_pi_div_two hθ.1 hlt.le
  set along := g ⬝ᵥ bent θ g w
  have hmax : along = max (Real.tan θ * across g w) (g ⬝ᵥ w) := dotProduct_bent hg
  have hnonneg : 0 ≤ along := by
    rw [hmax]
    exact le_max_of_le_left (mul_nonneg htan (across_nonneg g w))
  have hcross : Real.sin θ * across g w ≤ Real.cos θ * along := by
    calc Real.sin θ * across g w = Real.cos θ * (Real.tan θ * across g w) := by
          rw [← mul_assoc, mul_comm (Real.cos θ), Real.tan_mul_cos hcos.ne']
      _ ≤ Real.cos θ * along :=
          mul_le_mul_of_nonneg_left (hmax ▸ le_max_left _ _) hcos.le
  -- squared, the shares are weighed with the squares of sine and cosine
  have hsq : Real.sin θ ^ 2 * across g w ^ 2 ≤ Real.cos θ ^ 2 * along ^ 2 := by
    rw [← mul_pow, ← mul_pow]
    exact pow_le_pow_left₀ (mul_nonneg hsin (across_nonneg g w)) hcross 2
  apply le_of_sq_le_sq _ hnonneg
  rw [mul_pow, Real.sq_sqrt (Vec.dotProduct_self_nonneg _), bent_dotProduct_self hg]
  calc Real.sin θ ^ 2 * (along ^ 2 + across g w ^ 2)
      ≤ Real.sin θ ^ 2 * along ^ 2 + Real.cos θ ^ 2 * along ^ 2 := by
        rw [mul_add]
        exact add_le_add_right hsq _
    _ = along ^ 2 := by rw [← add_mul, Real.sin_sq_add_cos_sq, one_mul]

/-- A blend is bent to nothing exactly if it points against the unit vector, or is zero already. -/
lemma bent_eq_zero_iff (hg : g ⬝ᵥ g = 1) : bent θ g w = 0 ↔ ∃ c : ℝ, 0 ≤ c ∧ w = -(c • g) := by
  constructor
  · intro h
    rw [bent] at h
    exact ⟨_, le_max_right _ _, eq_neg_of_add_eq_zero_left h⟩
  · rintro ⟨c, hc, rfl⟩
    have halong : g ⬝ᵥ -(c • g) = -c := by
      rw [dotProduct_neg, dotProduct_smul, hg, smul_eq_mul, mul_one]
    have hacross : across g (-(c • g)) = 0 := by
      rw [across, halong, neg_dotProduct_neg, smul_dotProduct, dotProduct_smul, hg, smul_eq_mul,
        smul_eq_mul, mul_one, neg_sq, ← sq, sub_self, Real.sqrt_zero]
    rw [bent, halong, hacross, mul_zero, add_zero, neg_neg, max_eq_left hc, neg_add_cancel]

end Bend

/-! ## The mask on a blend -/

namespace Direction

section Masks

variable {problem : Problem ℝ} {activation : Activation} {x proxy gradient weighted v z : Vec ℝ}
  {mask : Option (Vec ℝ)} {p q : Fin n → ℝ}

/-- A mask leaves a vector as it is. -/
def Spares (mask : Option (Vec ℝ)) (p : Fin n → ℝ) : Prop := ∀ i : Fin n, p i * maskAt mask i = p i

lemma Spares.add (hp : Spares mask p) (hq : Spares mask q) : Spares mask (p + q) := by
  intro i
  rw [Pi.add_apply, add_mul, hp i, hq i]

lemma Spares.smul (hp : Spares mask p) (a : ℝ) : Spares mask (a • p) := by
  intro i
  rw [Pi.smul_apply, smul_eq_mul, mul_assoc, hp i]

/-- The factors of a mask are zero and one. -/
lemma maskAt_mul_self (hproblem : problem.WellFormed)
    (hmask : ∀ m ∈ mask, absorptionMask problem x = .ok m) (i : Fin problem.dimension) :
    maskAt mask i * maskAt mask i = maskAt mask i := by
  cases mask with
  | none => exact mul_one _
  | some mask =>
    have h := hmask mask rfl
    obtain ⟨hlength, -⟩ := coords_of_absorptionMask hproblem h
    obtain ⟨hx, -⟩ := Vec.zipExact4_eq_ok.1 h
    have hlower : problem.lower.length = problem.dimension := rfl
    have hi : (i : ℕ) < problem.binary.length := by
      rw [hproblem.length_binary]
      exact i.isLt
    have hentry := Vec.getElem?_of_zipExact4 h (Vec.getElem?_eq_coords (hx.trans hlower) i)
      (Vec.getElem?_eq_coords hlower i) (Vec.getElem?_eq_coords hproblem.length_upper i)
      (List.getElem?_eq_getElem hi)
    rw [Vec.getElem?_eq_coords hlength i, Option.some.injEq] at hentry
    rw [maskAt, Option.elim_some, Vec.partner_eq_coords hlength, hentry]
    split_ifs
    · simp
    · simp

/-- A masked vector keeps its length. -/
lemma length_of_masked (h : masked v mask = .ok z) : z.length = v.length :=
  (coords_of_masked h rfl).1.symm

/-- What is behind a mask is not changed by it any more, nor is its unit vector. -/
lemma spares_normalize_of_masked
    (hmask : ∀ i : Fin n, maskAt mask i * maskAt mask i = maskAt mask i)
    (h : masked v mask = .ok z) (hz : z.length = n) :
    Spares mask (Vec.coords n (Vec.normalize z)) := by
  obtain ⟨c, -, hscaled⟩ := Vec.exists_coords_normalize hz
  obtain ⟨-, hcoords⟩ := coords_of_masked h hz
  intro i
  rw [hscaled, hcoords, mul_assoc, mul_assoc, hmask]

/-- Nor is the blend of two such unit vectors. -/
lemma spares_of_add {b d w : Vec ℝ} {gamma : ℝ}
    (hmask : ∀ i : Fin n, maskAt mask i * maskAt mask i = maskAt mask i)
    (hb : masked v mask = .ok b) (hbLength : b.length = n) (hd : masked z mask = .ok d)
    (hdLength : d.length = n)
    (hw : Vec.add ((Vec.normalize b).scale gamma) ((Vec.normalize d).scale (1.0 - gamma)) = .ok w) :
    Spares mask (Vec.coords n w) := by
  rw [Vec.coords_of_add_scale hw ((Vec.length_normalize b).trans hbLength)
    ((Vec.length_normalize d).trans hdLength)]
  apply Spares.add
  · exact (spares_normalize_of_masked hmask hb hbLength).smul gamma
  · exact (spares_normalize_of_masked hmask hd hdLength).smul (1.0 - gamma)

/-- The weighted descent vanishes behind the mask. -/
lemma spares_normalize_neg (hproxy : ∀ i, Vec.partner proxy i * maskAt mask i = Vec.partner proxy i)
    (hweighted : Vec.mul proxy gradient = .ok weighted) (hlength : weighted.length = n) :
    Spares mask (Vec.coords n (Vec.normalize weighted.neg)) := by
  have hneg : weighted.neg.length = n := (Vec.length_neg _).trans hlength
  obtain ⟨c, -, hscaled⟩ := Vec.exists_coords_normalize hneg
  intro i
  rw [hscaled, Vec.neg, Vec.coords_map hlength, Vec.coords_of_zipSpread hweighted hlength]
  calc c * -(Vec.partner proxy i * Vec.partner gradient i) * maskAt mask i
      = c * -(Vec.partner proxy i * maskAt mask i * Vec.partner gradient i) := by ring
    _ = c * -(Vec.partner proxy i * Vec.partner gradient i) := by rw [hproxy]

end Masks

/-! ## The direction of a binary rule -/

section Blend

variable {R : Type} [Scalar R]

/-- The mask of absorption at a point, if the settings ask for absorption. -/
def maskOf (problem : Problem R) (config : Config R) (x : Vec R) : Checked (Option (Vec R)) :=
  if config.absorbs then some <$> absorptionMask problem x else .ok none

/-- The blend of a binary rule before it is bent: the unit vectors of the pull and of plain descent,
each behind the mask if there is one, in the shares that the settings ask for. -/
def blend (problem : Problem R) (map : BoxMap R) (config : Config R) (x gradient : Vec R) :
    Checked (Vec R) := do
  let mask ← maskOf problem config x
  let pull ← binaryPull problem map config.direction x
  let b := Vec.normalize (← masked pull mask)
  let h := Vec.normalize (← masked gradient.neg mask)
  Vec.add (b.scale config.gamma) (h.scale (1.0 - config.gamma))

variable {G : Type} [RandomSource G R] {problem : Problem R} {map : BoxMap R} {config : Config R}
  {x gradient : Vec R} {source : G}

omit [RandomSource G R] in
/-- Every mask that is put on stops binary coordinates on a bound. -/
lemma absorptionMask_of_maskOf {mask : Option (Vec R)} (h : maskOf problem config x = .ok mask) :
    ∀ m ∈ mask, absorptionMask problem x = .ok m := by
  unfold maskOf at h
  split_ifs at h
  · obtain ⟨m, hm, rfl⟩ := Outcome.map_eq_ok.1 h
    rintro _ ⟨⟩
    exact hm
  · obtain rfl := Except.ok.inj h
    exact nofun

/-- Both binary rules bend the blend of their pull. -/
lemma find_of_blends (hrule : config.direction.Blends) :
    find problem map config x gradient source = (do
      let mask ← maskOf problem config x
      let pull ← binaryPull problem map config.direction x
      let d ← blended map config.gamma config.theta x gradient pull mask
      return (Vec.normalize d, source)) := by
  unfold find maskOf
  rcases hrule with hrule | hrule
  · rw [hrule]
    split_ifs
    · rfl
    · rfl
  · rw [hrule]
    split_ifs
    · rfl
    · rfl

end Blend

section Bent

/-- How far a blend is bent, on coordinates. -/
lemma bend_eq {theta : ℝ} {g w : Vec ℝ} (hg : g.length = n) (hw : w.length = n) :
    bend theta g w = max (-(Vec.coords n g ⬝ᵥ Vec.coords n w) +
      Real.tan theta * Bend.across (Vec.coords n g) (Vec.coords n w)) 0 := by
  have hsqrt (a : ℝ) : √(max a 0) = √a := by
    rcases le_total a 0 with ha | ha
    · rw [max_eq_right ha, Real.sqrt_zero, Real.sqrt_eq_zero_of_nonpos ha]
    · rw [max_eq_left ha]
  simp only [bend, Vec.inner_eq_dotProduct hg hw, Vec.inner_eq_dotProduct hw hw,
    Scalar.maxNum_real, Scalar.sqrt_real, Scalar.tan_real, Scalar.literal_zero, hsqrt]
  rw [Bend.across, sq]

variable {G : Type} [RandomSource G ℝ] {problem : Problem ℝ} {config : Config ℝ}
  {x gradient proxy weighted direction : Vec ℝ} {source source' : G}

/-- The direction of a binary rule is the unit vector of the bent blend. -/
theorem exists_bent_of_find (hproblem : problem.WellFormed) (hrule : config.direction.Blends)
    (hgradient : gradient.length = problem.dimension)
    (hproxy : (problem.boxMap config.activation).proxyDistance x = .ok proxy)
    (hweighted : Vec.mul proxy gradient = .ok weighted)
    (h : find problem (problem.boxMap config.activation) config x gradient source =
      .ok (direction, source')) :
    weighted.length = problem.dimension ∧ ∃ w z,
      blend problem (problem.boxMap config.activation) config x gradient = .ok w ∧
      w.length = problem.dimension ∧ z.length = problem.dimension ∧ Vec.normalize z = direction ∧
      Vec.coords problem.dimension z = Bend.bent config.theta
        (Vec.coords _ (Vec.normalize weighted.neg)) (Vec.coords _ w) := by
  rw [find_of_blends hrule] at h
  simp only [Outcome.bind_eq_ok, Outcome.pure_eq_ok, Prod.mk.injEq] at h
  obtain ⟨mask, hmask, pull, hpull, z, hblended, hunit, -⟩ := h
  simp only [blended, Outcome.bind_eq_ok, Breach.sameLength_eq_ok] at hblended
  obtain ⟨proxy', hproxy', weighted', hweighted', b, hb, d, hd, w, hw, -, hsame, moved, hshift,
    hmasked⟩ := hblended
  obtain rfl : proxy = proxy' := Except.ok.inj (hproxy.symm.trans hproxy')
  obtain rfl : weighted = weighted' := Except.ok.inj (hweighted.symm.trans hweighted')
  have hstops := absorptionMask_of_maskOf hmask
  have hblend : blend problem (problem.boxMap config.activation) config x gradient = .ok w := by
    simp only [blend, Outcome.bind_eq_ok]
    exact ⟨mask, hmask, pull, hpull, b, hb, d, hd, hw⟩
  -- every vector on the way has an entry for each variable
  set n := problem.dimension
  obtain ⟨-, hproxyLength, -⟩ := Vec.coords_of_zipExact4 (n := n) hproxy rfl
  have hlength : weighted.length = n := by
    obtain ⟨_, hproduct, hlength⟩ := Vec.returns_zipSpread (f := (· * ·)) hproxyLength hgradient
    obtain rfl := Except.ok.inj (hweighted.symm.trans hproduct)
    exact hlength
  have hg : (Vec.normalize weighted.neg).length = n := by simpa using hlength
  have hwLength : w.length = n := hsame.symm.trans hg
  have hmovedLength : moved.length = n := (Vec.length_of_zipOnto hshift).trans hwLength
  have hz : z.length = n := (length_of_masked hmasked).trans hmovedLength
  have hbLength : b.length = n := by
    obtain ⟨_, -, hpullLength⟩ := Outcome.bind_eq_ok.1 hpull
    exact (length_of_masked hb).trans
      ((Vec.length_of_zipExact hpullLength).2.trans hproblem.length_binary)
  have hdLength : d.length = n := (length_of_masked hd).trans (by simpa using hgradient)
  -- neither the blend nor the weighted descent is changed by the last mask
  have hsparesBlend : Spares mask (Vec.coords n w) :=
    spares_of_add (maskAt_mul_self hproblem hstops) hb hbLength hd hdLength hw
  have hsparesDescent : Spares mask (Vec.coords n (Vec.normalize weighted.neg)) :=
    spares_normalize_neg (proxy_mul_maskAt hproblem hproxy hstops) hweighted hlength
  have hmoved : Vec.coords n moved = Bend.bent config.theta
      (Vec.coords n (Vec.normalize weighted.neg)) (Vec.coords n w) := by
    rw [Vec.coords_of_shiftScaled hshift hwLength hg, bend_eq hg hwLength, Bend.bent]
  refine ⟨hlength, w, z, hblend, hwLength, hz, hunit, ?_⟩
  funext i
  rw [(coords_of_masked hmasked hz).2 i, hmoved]
  exact (hsparesBlend.add (hsparesDescent.smul _)) i

/-- The direction of a binary rule makes an angle with the weighted descent that is at least `theta`
below a right one. -/
theorem sin_mul_norm_le (hproblem : problem.WellFormed) (hrule : config.direction.Blends)
    (htheta : config.theta ∈ Set.Icc 0 1) (hgradient : gradient.length = problem.dimension)
    (hproxy : (problem.boxMap config.activation).proxyDistance x = .ok proxy)
    (hweighted : Vec.mul proxy gradient = .ok weighted)
    (h : find problem (problem.boxMap config.activation) config x gradient source =
      .ok (direction, source'))
    (hdirection : Vec.norm direction ≠ 0) :
    Real.sin config.theta * Vec.norm weighted ≤
      -(Vec.coords problem.dimension weighted ⬝ᵥ Vec.coords _ direction) := by
  obtain ⟨hlength, w, z, -, -, hz, rfl, hbent⟩ :=
    exists_bent_of_find hproblem hrule hgradient hproxy hweighted h
  set n := problem.dimension
  have hneg : weighted.neg.length = n := (Vec.length_neg _).trans hlength
  set g := Vec.coords n (Vec.normalize weighted.neg)
  rw [Vec.coords_eq_neg_norm_smul hlength, neg_dotProduct, neg_neg, smul_dotProduct, smul_eq_mul,
    mul_comm]
  by_cases hzero : Vec.norm weighted = 0
  · rw [hzero, zero_mul, zero_mul]
  · apply mul_le_mul_of_nonneg_left _ (Vec.norm_nonneg weighted)
    have hg : g ⬝ᵥ g = 1 := by
      apply Vec.normalize_dotProduct_self hneg
      rwa [Vec.norm_neg]
    have hznorm : Vec.norm z ≠ 0 := fun hznorm =>
      hdirection (Vec.norm_normalize_eq_zero_iff.2 hznorm)
    -- the bound is one on the bent blend, whose length does not matter
    have hangle := Bend.sin_mul_sqrt_le (w := Vec.coords n w) htheta hg
    rw [← hbent, ← Vec.norm_eq_sqrt hz, Vec.coords_eq_norm_smul hz, dotProduct_smul, smul_eq_mul,
      mul_comm] at hangle
    exact le_of_mul_le_mul_left hangle ((Vec.norm_nonneg z).lt_of_ne' hznorm)

end Bent

end Direction

end HopfieldDescent
