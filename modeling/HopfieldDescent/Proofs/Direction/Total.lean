import Mathlib
import HopfieldDescent.Direction
import HopfieldDescent.Proofs.Problem.WellFormed

/-!
# Every rule finds a direction

At a point and a gradient with an entry for each variable, every rule finds a direction with an
entry for each variable, with and without the mask of absorption.  The operations on the way are of
all three kinds, and none of them has to repeat an entry.
-/

open HopfieldDescent.Outcome (Returns)

namespace HopfieldDescent

variable {R : Type} [Scalar R] {n : ℕ}

/-! ## Squashing into a box -/

namespace BoxMap

omit [Scalar R] in
/-- There are bounds and a gain for each of `n` variables. -/
structure Fits (map : BoxMap R) (n : ℕ) : Prop where
  /-- The lower bounds. -/
  length_lower : map.lower.length = n
  /-- The upper bounds. -/
  length_upper : map.upper.length = n
  /-- The gains. -/
  length_gain : map.gain.length = n

variable {map : BoxMap R} {x : Vec R}

/-- Hidden states are squashed. -/
lemma returns_activate (hmap : map.Fits n) (hx : x.length = n) :
    Returns (map.activate x) fun y => y.length = n :=
  Vec.returns_zipExact4 hx hmap.length_lower hmap.length_upper hmap.length_gain

/-- Points are taken back to hidden states. -/
lemma returns_inverse (hmap : map.Fits n) (hx : x.length = n) :
    Returns (map.inverse x) fun y => y.length = n :=
  Vec.returns_zipExact4 hx hmap.length_lower hmap.length_upper hmap.length_gain

/-- Points have a proxy distance in each coordinate. -/
lemma returns_proxyDistance (hmap : map.Fits n) (hx : x.length = n) :
    Returns (map.proxyDistance x) fun y => y.length = n :=
  Vec.returns_zipExact4 hx hmap.length_lower hmap.length_upper hmap.length_gain

end BoxMap

/-- The map into the box of a problem has bounds and gains for its variables. -/
lemma Problem.WellFormed.fits_boxMap {problem : Problem R} (hproblem : problem.WellFormed)
    (activation : Activation) : (problem.boxMap activation).Fits problem.dimension :=
  ⟨rfl, hproblem.length_upper, hproblem.length_gain⟩

/-! ## Directions -/

namespace Direction

variable {problem : Problem R} {map : BoxMap R} {x gradient v : Vec R} {mask : Option (Vec R)}

/-- A point has a mask. -/
lemma returns_absorptionMask (hproblem : problem.WellFormed) (hx : x.length = problem.dimension) :
    Returns (absorptionMask problem x) fun mask => mask.length = problem.dimension :=
  Vec.returns_zipExact4 hx rfl hproblem.length_upper hproblem.length_binary

/-- A mask is put on a vector. -/
lemma returns_masked (hv : v.length = n) (hmask : ∀ m ∈ mask, m.length = n) :
    Returns (masked v mask) fun w => w.length = n := by
  unfold masked
  split
  · exact Vec.returns_zipOnto hv (hmask _ rfl)
  · exact .ok hv

/-- A gradient has a descent direction. -/
lemma returns_descent (hgradient : gradient.length = n) (hmask : ∀ m ∈ mask, m.length = n) :
    Returns (descent gradient mask) fun w => w.length = n := by
  have hneg : gradient.neg.length = n := (Vec.length_neg _).trans hgradient
  unfold descent
  split
  · exact Vec.returns_zipSpread hneg (hmask _ rfl)
  · exact .ok hneg

/-- A point is pulled towards the bounds at its binary coordinates. -/
lemma returns_binaryPull (hproblem : problem.WellFormed) (hmap : map.Fits problem.dimension)
    (rule : DirectionRule) (hx : x.length = problem.dimension) :
    Returns (binaryPull problem map rule x) fun pull => pull.length = problem.dimension := by
  have hoffset : Returns (offset problem map rule x) fun o => o.length = problem.dimension := by
    unfold offset
    split
    · exact (BoxMap.returns_activate hmap hx).bind fun _ hy =>
        Vec.returns_zipSpread hy hproblem.length_midpoint
    · exact Vec.returns_zipExact hx hproblem.length_midpoint
  exact hoffset.bind fun _ ho => Vec.returns_zipExact ho hproblem.length_binary

/-- Pull and descent are blended. -/
lemma returns_blended (hmap : map.Fits n) (gamma theta : R) (hx : x.length = n)
    (hgradient : gradient.length = n) {pull : Vec R} (hpull : pull.length = n)
    (hmask : ∀ m ∈ mask, m.length = n) :
    Returns (blended map gamma theta x gradient pull mask) fun w => w.length = n := by
  have hneg : gradient.neg.length = n := (Vec.length_neg _).trans hgradient
  refine (BoxMap.returns_proxyDistance hmap hx).bind fun proxy hproxy => ?_
  refine (Vec.returns_zipSpread hproxy hgradient).bind fun weighted hweighted => ?_
  refine (returns_masked hpull hmask).bind fun b hb => ?_
  refine (returns_masked hneg hmask).bind fun h hh => ?_
  refine (Vec.returns_zipSpread (f := (· + ·)) (t := (Vec.normalize b).scale gamma)
    (u := (Vec.normalize h).scale (1.0 - gamma)) (n := n) (by simp [hb]) (by simp [hh])).bind
      fun w hw => ?_
  have hg : (Vec.normalize (Vec.neg weighted)).length = n := by simp [hweighted]
  refine Returns.bind (P := fun _ => True)
    ⟨(), Breach.sameLength_eq_ok.2 (hg.trans hw.symm), trivial⟩ fun _ _ => ?_
  exact (Vec.returns_zipOnto hw hg).bind fun _ hbent => returns_masked hbent hmask

/-- Every rule finds a direction. -/
theorem returns_find {G : Type} [RandomSource G R] (hproblem : problem.WellFormed)
    (hmap : map.Fits problem.dimension) (config : Config R) (hx : x.length = problem.dimension)
    (hgradient : gradient.length = problem.dimension) (source : G) :
    Returns (find problem map config x gradient source) fun found =>
      found.1.length = problem.dimension := by
  have hblended (rule : DirectionRule) {mask : Option (Vec R)}
      (hmask : ∀ m ∈ mask, m.length = problem.dimension) :
      Returns (do
        let pull ← binaryPull problem map rule x
        return (Vec.normalize (← blended map config.gamma config.theta x gradient pull mask),
          source)) fun found => found.1.length = problem.dimension :=
    (returns_binaryPull hproblem hmap rule hx).bind fun pull hpull =>
      (returns_blended hmap _ _ hx hgradient hpull hmask).bind fun w hw =>
        .ok ((Vec.length_normalize w).trans hw)
  unfold find
  refine Returns.ite_bind (P := fun mask => ∀ m ∈ mask, m.length = problem.dimension)
    ((returns_absorptionMask hproblem hx).map ?_) (.ok nofun) fun mask hmask => ?_
  · rintro m hm _ ⟨⟩
    exact hm
  split
  · exact (returns_descent hgradient hmask).bind fun d hd =>
      .ok ((Vec.length_normalize d).trans hd)
  · refine (returns_descent hgradient hmask).bind fun d hd => .ok ?_
    simp [RandomSource.length_draws, hd]
  · exact hblended _ hmask
  · exact hblended _ hmask

end Direction

end HopfieldDescent
