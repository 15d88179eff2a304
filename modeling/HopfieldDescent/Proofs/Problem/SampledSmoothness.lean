import Mathlib
import HopfieldDescent.Problem.Smoothness
import HopfieldDescent.Proofs.DenseMatrix.Matrix
import HopfieldDescent.Proofs.Vec.Box
import HopfieldDescent.Proofs.Vec.Spread

/-!
# Sampled smoothness is a lower estimate

The pairs of points between which the gradient is compared can be told before it is evaluated, since
each point takes one draw for each coordinate and nothing else draws.  So the estimate is a
traversal of known pairs, and it depends on the gradient at their points alone
(`Smoothness.estimate_congr`).

If the draws lie in the unit interval, the points lie in the box, and the estimate is the largest
ratio of a pair of distinct points: no more than any Lipschitz constant of the gradient on the box.
-/

namespace HopfieldDescent

/-! ## Draws in a row -/

namespace RandomSource

section Draws

variable {G R : Type} [RandomSource G R] {source : G}

/-- The source after a number of draws. -/
def after (source : G) (k : ℕ) : G := (draws k source).2

@[simp] lemma after_zero (source : G) : after source 0 = source := rfl

lemma after_succ (source : G) (k : ℕ) : after source (k + 1) = after (next source).2 k := rfl

/-- Draws can be made in two parts. -/
lemma after_add (source : G) (m n : ℕ) : after source (m + n) = after (after source m) n := by
  induction m generalizing source with
  | zero => rw [Nat.zero_add, after_zero]
  | succ m ih => rw [Nat.succ_add, after_succ, after_succ, ih]

/-- What is drawn is drawn after a smaller number of draws. -/
lemma exists_of_mem_draws {n : ℕ} {a : R} (h : a ∈ (draws n source).1) :
    ∃ k, a = (next (after source k)).1 := by
  induction n generalizing source with
  | zero => cases h
  | succ n ih =>
    rcases List.mem_cons.1 h with rfl | h
    · exact ⟨0, rfl⟩
    · obtain ⟨k, hk⟩ := ih h
      exact ⟨k + 1, hk⟩

variable [Scalar R] {lower upper : Vec R}

/-- The random point of a box with the number `k`: as many draws as there are coordinates, after
those for the points before. -/
def boxPoint (lower upper : Vec R) (source : G) (k : ℕ) : Vec R :=
  List.zipWith (fun l p => l + (p.1 - l) * p.2) lower
    (List.zip upper (draws lower.length (after source (k * lower.length))).1)

/-- Points of a box are drawn in their order. -/
lemma pointOfBox_after (h : lower.length = upper.length) (source : G) (k : ℕ) :
    pointOfBox lower upper (after source (k * lower.length)) =
      .ok (boxPoint lower upper source k, after source ((k + 1) * lower.length)) := by
  have hshares : upper.length = (draws lower.length (after source (k * lower.length))).1.length :=
    h.symm.trans (length_draws _ _).symm
  have hzip := Vec.zipExact3_eq_ok (f := fun l u share : R => l + (u - l) * share).2
    ⟨h, hshares, rfl⟩
  rw [pointOfBox]
  dsimp only
  rw [hzip, Outcome.ok_bind, Nat.succ_mul, after_add]
  rfl

end Draws

section UnitInterval

variable {G : Type} [RandomSource G ℝ] {source : G} {lower upper : Vec ℝ}

/-- All numbers drawn from a source on lie in the half-open unit interval. -/
def InUnitInterval (source : G) : Prop := ∀ k, (next (after source k)).1 ∈ Set.Ico (0 : ℝ) 1

/-- A share of the unit interval leads to a value between the bounds. -/
lemma add_mul_mem_Icc {l u share : ℝ} (hlu : l ≤ u) (hshare : share ∈ Set.Ico (0 : ℝ) 1) :
    l + (u - l) * share ∈ Set.Icc l u := by
  have hwidth : 0 ≤ u - l := sub_nonneg.2 hlu
  have hle : (u - l) * share ≤ (u - l) * 1 := mul_le_mul_of_nonneg_left hshare.2.le hwidth
  exact ⟨le_add_of_nonneg_right (mul_nonneg hwidth hshare.1), by linarith⟩

/-- Random points of a box lie in it. -/
lemma boxPoint_inBox (hsource : InUnitInterval source) (hbox : List.Forall₂ (· ≤ ·) lower upper)
    (k : ℕ) : Vec.InBox lower upper (boxPoint lower upper source k) := by
  have hupper : upper.length = lower.length := hbox.length_eq.symm
  have hshares := length_draws lower.length (after source (k * lower.length))
  have hlength : (boxPoint lower upper source k).length = lower.length := by
    simp [boxPoint, hupper, hshares]
  refine Vec.inBox_of_forall hlength.symm (hlength.trans hupper.symm) fun i l u a hl hu ha => ?_
  obtain ⟨hi, rfl⟩ := List.getElem?_eq_some_iff.1 hl
  obtain ⟨hi', rfl⟩ := List.getElem?_eq_some_iff.1 hu
  obtain ⟨hi'', rfl⟩ := List.getElem?_eq_some_iff.1 ha
  obtain ⟨m, hm⟩ := exists_of_mem_draws (List.getElem_mem (hshares ▸ hi : i < _))
  simp only [boxPoint, List.getElem_zipWith, List.getElem_zip]
  refine add_mul_mem_Icc ((List.forall₂_iff_get.1 hbox).2 i hi hi') ?_
  rw [hm, ← after_add]
  exact hsource _

end UnitInterval

end RandomSource

/-! ## The pairs of an estimate -/

namespace Smoothness

open RandomSource (after boxPoint)

section Pairs

variable {G R : Type} [Scalar R] [RandomSource G R] {objective objective' : Objective R}
  {lower upper : Vec R}

/-- The change ratio of the pair of random points with the number `i`. -/
def pairRatio (objective : Objective R) (lower upper : Vec R) (source : G) (i : ℕ) : Checked R :=
  changeRatio objective (boxPoint lower upper source (2 * i))
    (boxPoint lower upper source (2 * i + 1))

/-- Sampling compares the pairs of random points in a row. -/
lemma sampledRatios_after (objective : Objective R) (h : lower.length = upper.length) (source : G)
    (i count : ℕ) :
    sampledRatios objective lower upper count (after source (2 * i * lower.length)) = (do
      let ratios ← (List.range' i count).mapM (pairRatio objective lower upper source)
      return (ratios, after source (2 * (i + count) * lower.length))) := by
  induction count generalizing i with
  | zero => rfl
  | succ count ih =>
    have hnext : 2 * i + 1 + 1 = 2 * (i + 1) := by ring
    have hend : i + 1 + count = i + (count + 1) := by ring
    rw [sampledRatios, RandomSource.pointOfBox_after h, Outcome.ok_bind]
    dsimp only
    rw [RandomSource.pointOfBox_after h, Outcome.ok_bind]
    dsimp only
    rw [hnext, ih, hend, List.range'_succ, List.mapM_cons]
    simp only [pairRatio, bind_assoc, pure_bind]

/-- The estimate compares as many pairs of random points as there are variables, and takes twice as
many points and as many draws for each. -/
lemma estimate_eq (h : lower.length = upper.length) (source : G) :
    estimate objective lower upper source = (do
      let ratios ← (List.range lower.length).mapM (pairRatio objective lower upper source)
      return (Vec.peak ratios, after source (2 * lower.length ^ 2))) := by
  have hsampled := sampledRatios_after objective h source 0 lower.length
  rw [Nat.mul_zero, Nat.zero_mul, RandomSource.after_zero, ← List.range_eq_range',
    Nat.zero_add, Nat.mul_assoc, ← sq] at hsampled
  rw [estimate, hsampled]
  simp only [bind_assoc, pure_bind]

/-- The estimate depends on the gradient at the random points alone. -/
lemma estimate_congr (h : lower.length = upper.length) (source : G)
    (hgradient : ∀ k < 2 * lower.length, objective'.gradient (boxPoint lower upper source k) =
      objective.gradient (boxPoint lower upper source k)) :
    estimate objective' lower upper source = estimate objective lower upper source := by
  have hratio (i : ℕ) (hi : i ∈ List.range lower.length) :
      pairRatio objective' lower upper source i = pairRatio objective lower upper source i := by
    have hi' := List.mem_range.1 hi
    rw [pairRatio, pairRatio, changeRatio, changeRatio, hgradient _ (by omega),
      hgradient _ (by omega)]
  rw [estimate_eq h, estimate_eq h, Outcome.mapM_congr hratio]

end Pairs

/-! ## Change ratios over the reals -/

section Ratios

variable {G : Type} [RandomSource G ℝ] {objective : Objective ℝ} {gradient : Vec ℝ → Vec ℝ}
  {lower upper p q v : Vec ℝ} {source : G} {n : ℕ}

/-- How much a gradient changes between two points, relative to their distance. -/
noncomputable def slopeBetween (gradient : Vec ℝ → Vec ℝ) (p q : Vec ℝ) : ℝ :=
  Vec.norm (List.zipWith (· - ·) (gradient p) (gradient q)) /
    Vec.norm (List.zipWith (· - ·) p q)

/-- Points that coincide have ratio zero. -/
lemma slopeBetween_self (gradient : Vec ℝ → Vec ℝ) (p : Vec ℝ) : slopeBetween gradient p p = 0 := by
  rw [slopeBetween, (Vec.norm_zipWith_sub_eq_zero_iff (v := p) rfl rfl).2 rfl, div_zero]

/-- The change ratio of two points is the ratio of the distances of gradients and points. -/
lemma changeRatio_eq (hp : p.length = n) (hq : q.length = n)
    (hgp : objective.gradient p = .ok (gradient p) ∧ (gradient p).length = n)
    (hgq : objective.gradient q = .ok (gradient q) ∧ (gradient q).length = n) :
    changeRatio objective p q = .ok (slopeBetween gradient p q) := by
  rw [changeRatio, Vec.sub, Vec.zipSpread_of_length_eq (hp.trans hq.symm), Outcome.ok_bind]
  dsimp only
  split_ifs with hzero
  · have hdistance : Vec.norm (List.zipWith (· - ·) p q) = 0 := by simpa using hzero
    rw [slopeBetween, hdistance, div_zero, Scalar.literal_zero]
    rfl
  · rw [hgp.1, Outcome.ok_bind, hgq.1, Outcome.ok_bind, Vec.sub,
      Vec.zipSpread_of_length_eq (hgp.2.trans hgq.2.symm), Outcome.ok_bind]
    rfl

/-- Gradients that scale and shift differ by the scaled distance of their points. -/
lemma norm_sub_of_isotropic {c : ℝ} (hp : p.length = v.length) (hq : q.length = v.length) :
    Vec.norm (List.zipWith (· - ·) (List.zipWith (· + ·) (p.map (c * ·)) v)
      (List.zipWith (· + ·) (q.map (c * ·)) v)) =
    |c| * Vec.norm (List.zipWith (· - ·) p q) := by
  rw [← Vec.norm_map_mul]
  congr 1
  refine List.ext_getElem (by simp [hp, hq]) fun i hi hi' => ?_
  simp only [List.getElem_zipWith, List.getElem_map]
  ring

/-- The ratios of those pairs of random points that do not coincide. -/
def pairSlopes (gradient : Vec ℝ → Vec ℝ) (lower upper : Vec ℝ) (source : G) : Set ℝ :=
  {r | ∃ i < lower.length, boxPoint lower upper source (2 * i) ≠
      boxPoint lower upper source (2 * i + 1) ∧
    r = slopeBetween gradient (boxPoint lower upper source (2 * i))
      (boxPoint lower upper source (2 * i + 1))}

/-- The largest of the ratios of all pairs is the largest one of those that do not coincide, or
zero. -/
lemma isGreatest_peak (gradient : Vec ℝ → Vec ℝ) (lower upper : Vec ℝ) (source : G) :
    IsGreatest (insert 0 (pairSlopes gradient lower upper source))
      (Vec.peak ((List.range lower.length).map fun i =>
        slopeBetween gradient (boxPoint lower upper source (2 * i))
          (boxPoint lower upper source (2 * i + 1)))) := by
  constructor
  · rcases Vec.peak_eq_zero_or_mem _ with hpeak | hpeak
    · exact .inl hpeak
    · obtain ⟨i, hi, hratio⟩ := List.mem_map.1 hpeak
      by_cases hpair : boxPoint lower upper source (2 * i) = boxPoint lower upper source (2 * i + 1)
      · rw [hpair, slopeBetween_self] at hratio
        exact .inl hratio.symm
      · exact .inr ⟨i, List.mem_range.1 hi, hpair, hratio.symm⟩
  · rintro r (rfl | ⟨i, hi, -, rfl⟩)
    · exact Vec.peak_nonneg _
    · exact Vec.le_peak (List.mem_map.2 ⟨i, List.mem_range.2 hi, rfl⟩)

end Ratios

/-! ## The estimate -/

/-- If draws lie in the unit interval, then the estimate is made from points of the box alone and
takes two draws for each coordinate of each pair.  It is the largest ratio of a pair of distinct
points, or zero: no more than any Lipschitz constant of the gradient on the box, and the factor of a
gradient that only scales and shifts, if any two points of a pair are distinct. -/
theorem estimate_isGreatest {G : Type} [RandomSource G ℝ] {objective : Objective ℝ}
    {lower upper : Vec ℝ} {source : G} {gradient : Vec ℝ → Vec ℝ}
    (hbox : List.Forall₂ (· < ·) lower upper) (hsource : RandomSource.InUnitInterval source)
    (hgradient : ∀ x, Vec.InBox lower upper x →
      objective.gradient x = .ok (gradient x) ∧ (gradient x).length = lower.length) :
    (∀ k, Vec.InBox lower upper (boxPoint lower upper source k)) ∧
    (∀ objective' : Objective ℝ,
      (∀ k < 2 * lower.length, objective'.gradient (boxPoint lower upper source k) =
        objective.gradient (boxPoint lower upper source k)) →
      estimate objective' lower upper source = estimate objective lower upper source) ∧
    ∃ value,
      estimate objective lower upper source = .ok (value, after source (2 * lower.length ^ 2)) ∧
      IsGreatest (insert 0 (pairSlopes gradient lower upper source)) value ∧
      (∀ bound, 0 ≤ bound → (∀ x y, Vec.InBox lower upper x → Vec.InBox lower upper y →
          Vec.norm (List.zipWith (· - ·) (gradient x) (gradient y)) ≤
            bound * Vec.norm (List.zipWith (· - ·) x y)) → value ≤ bound) ∧
      ∀ (c : ℝ) (v : Vec ℝ), v.length = lower.length →
        (∀ x, Vec.InBox lower upper x →
          gradient x = List.zipWith (· + ·) (x.map (c * ·)) v) →
        (∃ i < lower.length, boxPoint lower upper source (2 * i) ≠
          boxPoint lower upper source (2 * i + 1)) → value = |c| := by
  have hlength := hbox.length_eq
  have hpoint := RandomSource.boxPoint_inBox hsource (hbox.imp fun _ _ => le_of_lt)
  have hratio (i : ℕ) (_ : i ∈ List.range lower.length) :
      pairRatio objective lower upper source i =
        .ok (slopeBetween gradient (boxPoint lower upper source (2 * i))
          (boxPoint lower upper source (2 * i + 1))) :=
    changeRatio_eq (hpoint _).length_eq (hpoint _).length_eq (hgradient _ (hpoint _))
      (hgradient _ (hpoint _))
  have hgreatest := isGreatest_peak gradient lower upper source
  have hbound (bound : ℝ) (hnonneg : 0 ≤ bound)
      (hlipschitz : ∀ x y, Vec.InBox lower upper x → Vec.InBox lower upper y →
        Vec.norm (List.zipWith (· - ·) (gradient x) (gradient y)) ≤
          bound * Vec.norm (List.zipWith (· - ·) x y)) :
      Vec.peak _ ≤ bound := hgreatest.1.elim (fun hzero => hzero.trans_le hnonneg) <| by
    rintro ⟨i, -, -, hslope⟩
    rw [hslope]
    exact div_le_of_le_mul₀ (Vec.norm_nonneg _) hnonneg (hlipschitz _ _ (hpoint _) (hpoint _))
  refine ⟨hpoint, fun _ => estimate_congr hlength source, _, ?_, hgreatest, hbound, ?_⟩
  · rw [estimate_eq hlength, Outcome.mapM_eq_map hratio]
    rfl
  · intro c v hv hisotropic hdistinct
    have hscaled {x y : Vec ℝ} (hx : Vec.InBox lower upper x) (hy : Vec.InBox lower upper y) :
        Vec.norm (List.zipWith (· - ·) (gradient x) (gradient y)) =
          |c| * Vec.norm (List.zipWith (· - ·) x y) := by
      rw [hisotropic x hx, hisotropic y hy,
        norm_sub_of_isotropic (hx.length_eq.trans hv.symm) (hy.length_eq.trans hv.symm)]
    refine le_antisymm (hbound _ (abs_nonneg c) fun x y hx hy => (hscaled hx hy).le) ?_
    obtain ⟨i, hi, hpair⟩ := hdistinct
    refine hgreatest.2 (.inr ⟨i, hi, hpair, ?_⟩)
    have hdistance : Vec.norm (List.zipWith (· - ·) (boxPoint lower upper source (2 * i))
        (boxPoint lower upper source (2 * i + 1))) ≠ 0 := fun hzero =>
      hpair ((Vec.norm_zipWith_sub_eq_zero_iff (hpoint _).length_eq (hpoint _).length_eq).1 hzero)
    rw [slopeBetween, hscaled (hpoint _) (hpoint _), mul_div_cancel_right₀ _ hdistance]

/-- A paraboloid, whose gradient scales a point by `c` and shifts it by `v`. -/
noncomputable def paraboloid (c : ℝ) (v : Vec ℝ) : Objective ℝ :=
  .ofFunctions (fun x => .ok (0.5 * c * Vec.inner x x + Vec.inner v x)) fun x =>
    .ok (List.zipWith (· + ·) (x.map (c * ·)) v)

/-- A random source whose draws are the reciprocals of the numbers from two on. -/
noncomputable instance : RandomSource ℕ ℝ :=
  ⟨UInt64.toNat, fun s => (1 / (s + 2.0), s + 1)⟩

lemma after_reciprocals (s k : ℕ) : after s k = s + k := by
  induction k generalizing s with
  | zero => rfl
  | succ k ih => exact (ih (s + 1)).trans (Nat.add_right_comm s 1 k)

/-- The points of a rectangle that the reciprocals lead to. -/
lemma boxPoint_reciprocals (k : ℕ) : boxPoint [0, 0] [1, 2] (0 : ℕ) k =
    [(0 : ℝ) + (1 - 0) * (1 / ((k * 2 : ℕ) + 2.0)),
      0 + (2 - 0) * (1 / ((k * 2 + 1 : ℕ) + 2.0))] := by
  rw [boxPoint, after_reciprocals, Nat.zero_add]
  rfl

/-- Over a rectangle, two random pairs of points tell the factor two. -/
theorem estimate_isGreatest_paraboloid :
    List.Forall₂ (· < ·) [(0 : ℝ), 0] [1, 2] ∧ RandomSource.InUnitInterval (0 : ℕ) ∧
      boxPoint [0, 0] [1, 2] (0 : ℕ) 0 = [(1 / 2 : ℝ), 2 / 3] ∧
      boxPoint [0, 0] [1, 2] (0 : ℕ) 1 = [(1 / 4 : ℝ), 2 / 5] ∧
      estimate (paraboloid 2 [1, -1]) [0, 0] [1, 2] (0 : ℕ) = .ok (2, 8) := by
  have hbox : List.Forall₂ (· < ·) [(0 : ℝ), 0] [1, 2] := .cons one_pos (.cons two_pos .nil)
  have hsource : RandomSource.InUnitInterval (0 : ℕ) := by
    intro k
    rw [after_reciprocals]
    change 1 / (((0 + k : ℕ) : ℝ) + 2.0) ∈ Set.Ico 0 1
    have hk : (0 : ℝ) ≤ (0 + k : ℕ) := Nat.cast_nonneg _
    have hlt : 1 < ((0 + k : ℕ) : ℝ) + 2.0 := by norm_num; linarith
    exact ⟨div_nonneg zero_le_one (by linarith), (div_lt_one (by linarith)).2 hlt⟩
  have hgradient (x : Vec ℝ) (hx : Vec.InBox [0, 0] [1, 2] x) :
      (paraboloid 2 [1, -1]).gradient x = .ok (List.zipWith (· + ·) (x.map (2 * ·)) [1, -1]) ∧
        (List.zipWith (· + ·) (x.map (2 * ·)) [1, -1]).length = [(0 : ℝ), 0].length := by
    have hlength : List.length x = 2 := hx.length_eq
    exact ⟨rfl, by simp [hlength]⟩
  have hfirst : boxPoint [0, 0] [1, 2] (0 : ℕ) 0 = [(1 / 2 : ℝ), 2 / 3] := by
    rw [boxPoint_reciprocals]
    norm_num
  have hsecond : boxPoint [0, 0] [1, 2] (0 : ℕ) 1 = [(1 / 4 : ℝ), 2 / 5] := by
    rw [boxPoint_reciprocals]
    norm_num
  have hdistinct : boxPoint [0, 0] [1, 2] (0 : ℕ) (2 * 0) ≠
      boxPoint [0, 0] [1, 2] (0 : ℕ) (2 * 0 + 1) := by
    rw [Nat.mul_zero, Nat.zero_add, hfirst, hsecond]
    norm_num
  obtain ⟨-, -, value, hestimate, -, -, hisotropic⟩ :=
    estimate_isGreatest hbox hsource hgradient
  have hvalue : value = |2| :=
    hisotropic 2 [1, -1] rfl (fun _ _ => rfl) ⟨0, two_pos, hdistinct⟩
  rw [hvalue, abs_two, after_reciprocals] at hestimate
  exact ⟨hbox, hsource, hfirst, hsecond, hestimate⟩

end Smoothness

end HopfieldDescent
