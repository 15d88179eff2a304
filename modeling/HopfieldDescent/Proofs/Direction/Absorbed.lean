import Mathlib
import HopfieldDescent.Proofs.Direction.Slope

/-!
# Absorbed coordinates get no direction

A binary coordinate that sits on a bound is stopped by the mask of absorption.  Each rule puts the
mask on its direction in a place of its own: plain descent and the random factors see a gradient
that has been masked already, and a blend is masked once more after it has been bent.  In every case
the entry of the direction that meets the coordinate is zero, and scaling to unit length keeps it
so (`partner_of_find`).
-/

namespace HopfieldDescent

namespace Vec

variable {v w z : Vec ℝ}

/-- What updates a vector also combines with it. -/
lemma zipSpread_of_zipOnto {α β γ : Type} {f : α → β → γ} {v : List α} {w : List β} {z : List γ}
    (h : zipOnto f v w = .ok z) : zipSpread f v w = .ok z := by
  unfold zipOnto at h
  unfold zipSpread
  split_ifs at h ⊢ with hlength
  · exact h
  · split at h
    · rename_i b
      rcases v with _ | ⟨a, _ | ⟨a', v⟩⟩
      · exact h
      · exact absurd rfl hlength
      · exact h
    · cases h

/-- A coordinate that is zero stays zero in the unit vector. -/
lemma partner_normalize_eq_zero {i : ℕ} (h : partner v i = 0) : partner (normalize v) i = 0 := by
  rcases partner_eq_coords_or_zero v.length i with ⟨j, hpartner⟩ | hpartner
  · obtain ⟨c, -, hscaled⟩ := exists_coords_normalize (rfl : v.length = v.length)
    rw [hpartner _ (length_normalize v), hscaled, ← hpartner v rfl, h, mul_zero]
  · exact hpartner _ (length_normalize v)

end Vec

/-! ## The mask reaches the direction -/

/-- A binary coordinate that sits exactly on a bound. -/
def Problem.IsAbsorbed (problem : Problem ℝ) (x : Vec ℝ) (i : ℕ) : Prop :=
  problem.binary[i]? = some true ∧ (x[i]? = problem.lower[i]? ∨ x[i]? = problem.upper[i]?)

namespace Direction

variable {problem : Problem ℝ} {x gradient v z : Vec ℝ} {i : ℕ}

/-- The mask is zero at a binary coordinate on a bound. -/
lemma partner_absorptionMask {mask : Vec ℝ} (h : absorptionMask problem x = .ok mask)
    (hi : problem.IsAbsorbed x i) : Vec.partner mask i = 0 := by
  obtain ⟨hx, hupper, hbinary, -⟩ := Vec.zipExact4_eq_ok.1 h
  obtain ⟨hisBinary, hbound⟩ := hi
  have hlt : i < problem.binary.length := (List.getElem?_eq_some_iff.1 hisBinary).1
  have hlength : mask.length = x.length := Vec.length_of_zipExact4 h
  have hix : i < x.length := by omega
  have hentry := Vec.getElem?_of_zipExact4 h (List.getElem?_eq_getElem hix)
    (List.getElem?_eq_getElem (hx ▸ hix)) (List.getElem?_eq_getElem (hupper ▸ hx ▸ hix)) hisBinary
  rw [List.getElem?_eq_getElem hix, List.getElem?_eq_getElem (hx ▸ hix),
    List.getElem?_eq_getElem (hupper ▸ hx ▸ hix), Option.some.injEq, Option.some.injEq] at hbound
  rw [Vec.partner_eq_coords hlength (⟨i, hix⟩ : Fin x.length), Vec.coords, hentry,
    Option.getD_some, if_pos (by simpa using hbound), Scalar.literal_zero]

/-- A vector behind a mask has no entry for a coordinate that the mask stops. -/
lemma partner_of_masked {mask : Vec ℝ} (hmask : Vec.partner mask i = 0)
    (h : masked v (some mask) = .ok z) : Vec.partner z i = 0 := by
  rw [Vec.partner_of_mul (Vec.zipSpread_of_zipOnto h), hmask, mul_zero]

/-- Nor has the descent behind a mask. -/
lemma partner_of_descent {mask : Vec ℝ} (hmask : Vec.partner mask i = 0)
    (h : descent gradient (some mask) = .ok z) : Vec.partner z i = 0 := by
  rw [Vec.partner_of_mul h, hmask, mul_zero]

/-- Random factors on the entries do not move a coordinate that stands still. -/
lemma partner_zipWith_mul {shares : Vec ℝ} (f : ℝ → ℝ) (hlength : shares.length = v.length)
    (h : Vec.partner v i = 0) :
    Vec.partner (List.zipWith (fun d share => -d * f share) v shares) i = 0 := by
  have hz : (List.zipWith (fun d share => -d * f share) v shares).length = v.length := by
    simp [hlength]
  rcases Vec.partner_eq_coords_or_zero v.length i with ⟨j, hpartner⟩ | hpartner
  · rw [hpartner _ hz, Vec.coords_zipWith rfl hlength, ← hpartner v rfl, h, neg_zero, zero_mul]
  · exact hpartner _ hz

variable {G : Type} [RandomSource G ℝ] {config : Config ℝ} {map : BoxMap ℝ} {direction : Vec ℝ}
  {source source' : G}

/-- Under every rule the direction has no entry for an absorbed coordinate. -/
theorem partner_of_find (habsorbs : config.absorbs = true) (hi : problem.IsAbsorbed x i)
    (h : find problem map config x gradient source = .ok (direction, source')) :
    Vec.partner direction i = 0 := by
  cases hrule : config.direction with
  | classic =>
    simp only [find, habsorbs, if_true, hrule, Outcome.bind_eq_ok, Outcome.map_eq_ok,
      Outcome.pure_eq_ok, Prod.mk.injEq] at h
    obtain ⟨_, ⟨mask, hmask, rfl⟩, d, hd, rfl, -⟩ := h
    exact Vec.partner_normalize_eq_zero (partner_of_descent (partner_absorptionMask hmask hi) hd)
  | stochastic =>
    simp only [find, habsorbs, if_true, hrule, Outcome.bind_eq_ok, Outcome.map_eq_ok,
      Outcome.pure_eq_ok, Prod.mk.injEq] at h
    obtain ⟨_, ⟨mask, hmask, rfl⟩, d, hd, rfl, -⟩ := h
    refine Vec.partner_normalize_eq_zero ?_
    exact partner_zipWith_mul _ (RandomSource.length_draws _ _)
      (partner_of_descent (partner_absorptionMask hmask hi) hd)
  | binary | softBinary =>
    simp only [find, habsorbs, if_true, hrule, Outcome.bind_eq_ok, Outcome.map_eq_ok,
      Outcome.pure_eq_ok, Prod.mk.injEq] at h
    obtain ⟨_, ⟨mask, hmask, rfl⟩, pull, -, d, hd, rfl, -⟩ := h
    -- whatever the blend and its bend are, the mask comes last
    simp only [blended, Outcome.bind_eq_ok] at hd
    obtain ⟨_, -, _, -, _, -, _, -, _, -, _, -, bent, -, hmasked⟩ := hd
    exact Vec.partner_normalize_eq_zero
      (partner_of_masked (partner_absorptionMask hmask hi) hmasked)

end Direction

end HopfieldDescent
