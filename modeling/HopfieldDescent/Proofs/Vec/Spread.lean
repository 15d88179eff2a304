import Mathlib
import HopfieldDescent.Proofs.Vec.Coordinates

/-!
# Single entries as partners

The lenient pairings repeat a vector of one entry as often as they need.  `Vec.partner v i` is the
entry of `v` that meets the entry with number `i` of another vector, and with it the coordinates of
a lenient pairing are known without looking at the lengths of its operands.

A vector is its length times its unit vector, also when it is zero.
-/

namespace HopfieldDescent.Vec

variable {n : ℕ} {v w z : Vec ℝ}

/-! ## Partners -/

/-- The entry that meets the entry with number `i` of another vector, zero if there is none; a
single entry meets all of them. -/
def partner (v : Vec ℝ) (i : ℕ) : ℝ := v[if v.length = 1 then 0 else i]?.getD 0

@[simp] lemma partner_singleton (a : ℝ) (i : ℕ) : partner [a] i = a := rfl

/-- Vectors of one length have partners of one number, or none. -/
lemma partner_eq_coords_or_zero (n i : ℕ) :
    (∃ j : Fin n, ∀ v : Vec ℝ, v.length = n → partner v i = coords n v j) ∨
      ∀ v : Vec ℝ, v.length = n → partner v i = 0 := by
  by_cases hlt : (if n = 1 then 0 else i) < n
  · refine .inl ⟨⟨_, hlt⟩, fun v hv => ?_⟩
    rw [partner, hv, coords]
  · refine .inr fun v hv => ?_
    rw [partner, hv, List.getElem?_eq_none (by omega), Option.getD_none]

/-- Among vectors of one length partners have the same number. -/
lemma partner_eq_coords (hv : v.length = n) (i : Fin n) : partner v i = coords n v i := by
  have hindex : (if v.length = 1 then 0 else (i : ℕ)) = i := by
    split_ifs with h
    · have := i.isLt
      omega
    · rfl
  rw [partner, hindex, coords]

/-- Partners change their signs with the vector. -/
lemma partner_neg (v : Vec ℝ) (i : ℕ) : partner (neg v) i = -partner v i := by
  unfold partner neg
  rw [List.length_map, List.getElem?_map]
  cases v[if v.length = 1 then 0 else i]? <;> simp

/-- The coordinates of a combination of two vectors. -/
lemma coords_of_zipSpread {f : ℝ → ℝ → ℝ} (h : zipSpread f v w = .ok z) (hz : z.length = n)
    (i : Fin n) : coords n z i = f (partner v i) (partner w i) := by
  unfold zipSpread at h
  split_ifs at h with hlength
  · obtain rfl := Except.ok.inj h
    have hv : v.length = n := by simpa [hlength] using hz
    have hw : w.length = n := hlength.symm.trans hv
    rw [coords_zipWith hv hw, partner_eq_coords hv, partner_eq_coords hw]
  · split at h
    · obtain rfl := Except.ok.inj h
      have hw : w.length = n := by simpa using hz
      rw [coords_map hw, partner_singleton, partner_eq_coords hw]
    · obtain rfl := Except.ok.inj h
      have hv : v.length = n := by simpa using hz
      rw [partner_singleton, partner_eq_coords hv]
      exact coords_map hv i
    · cases h

/-- The coordinates of an updated vector. -/
lemma coords_of_zipOnto {f : ℝ → ℝ → ℝ} (h : zipOnto f v w = .ok z) (hv : v.length = n)
    (i : Fin n) : coords n z i = f (coords n v i) (partner w i) := by
  unfold zipOnto at h
  split_ifs at h with hlength
  · obtain rfl := Except.ok.inj h
    have hw : w.length = n := hlength.symm.trans hv
    rw [coords_zipWith hv hw, partner_eq_coords hw]
  · split at h
    · obtain rfl := Except.ok.inj h
      exact coords_map hv i
    · cases h

/-- The coordinates of a multiple. -/
lemma coords_scale (hv : v.length = n) (a : ℝ) : coords n (v.scale a) = a • coords n v := by
  funext i
  rw [scale, coords_map hv, Pi.smul_apply, smul_eq_mul, mul_comm]

/-- The coordinates of a sum of multiples. -/
lemma coords_of_add_scale {a b : ℝ} (h : add (v.scale a) (w.scale b) = .ok z) (hv : v.length = n)
    (hw : w.length = n) : coords n z = a • coords n v + b • coords n w := by
  have hlength : (v.scale a).length = (w.scale b).length := by simp [hv, hw]
  rw [add, zipSpread_of_length_eq hlength] at h
  obtain rfl := Except.ok.inj h
  funext i
  rw [coords_zipWith (by simp [hv]) (by simp [hw]), coords_scale hv, coords_scale hw]
  rfl

/-- The coordinates of a vector that has been moved along another one. -/
lemma coords_of_shiftScaled {a : ℝ} (h : v.shiftScaled a w = .ok z) (hv : v.length = n)
    (hw : w.length = n) : coords n z = coords n v + a • coords n w := by
  funext i
  rw [coords_of_zipOnto h hv, partner_eq_coords hw]
  rfl

/-- The partners of a product are the products of the partners. -/
lemma partner_of_mul (h : mul v w = .ok z) (i : ℕ) : partner z i = partner v i * partner w i := by
  unfold mul zipSpread at h
  split_ifs at h with hlength
  · obtain rfl := Except.ok.inj h
    have hz : (List.zipWith (· * ·) v w).length = v.length := by simp [hlength]
    rcases partner_eq_coords_or_zero v.length i with ⟨j, hpartner⟩ | hpartner
    · rw [hpartner _ hz, hpartner _ rfl, hpartner _ hlength.symm, coords_zipWith rfl hlength.symm]
    · rw [hpartner _ hz, hpartner _ rfl, zero_mul]
  · split at h
    · obtain rfl := Except.ok.inj h
      rename_i a
      rw [partner_singleton]
      rcases partner_eq_coords_or_zero w.length i with ⟨j, hpartner⟩ | hpartner
      · rw [hpartner _ (List.length_map _), hpartner _ rfl, coords_map rfl]
      · rw [hpartner _ (List.length_map _), hpartner _ rfl, mul_zero]
    · obtain rfl := Except.ok.inj h
      rw [partner_singleton]
      rcases partner_eq_coords_or_zero v.length i with ⟨j, hpartner⟩ | hpartner
      · rw [hpartner _ (List.length_map _), hpartner _ rfl, coords_map rfl]
      · rw [hpartner _ (List.length_map _), hpartner _ rfl, zero_mul]
    · cases h

/-- A move along a vector leaves the coordinates alone that meet a zero. -/
lemma getElem?_of_shiftScaled {a : ℝ} {i : ℕ} (h : v.shiftScaled a w = .ok z)
    (hi : partner w i = 0) : z[i]? = v[i]? := by
  have hlength : z.length = v.length := length_of_zipOnto h
  by_cases hlt : i < v.length
  · have hcoords := coords_of_zipOnto h rfl ⟨i, hlt⟩
    rw [hi, mul_zero, add_zero] at hcoords
    have hz := getElem?_eq_coords hlength ⟨i, hlt⟩
    have hv := getElem?_eq_coords (rfl : v.length = v.length) ⟨i, hlt⟩
    exact hz.trans (hcoords ▸ hv.symm)
  · rw [List.getElem?_eq_none (by omega), List.getElem?_eq_none (by omega)]

/-! ## Unit vectors -/

/-- No vector has a negative length. -/
lemma norm_nonneg (v : Vec ℝ) : 0 ≤ norm v := Real.sqrt_nonneg _

/-- A vector of one entry is as long as that entry. -/
@[simp] lemma norm_singleton (a : ℝ) : norm [a] = |a| := by
  simp [norm, inner, sum, Real.sqrt_mul_self_eq_abs]

/-- The squared length of a vector, on coordinates. -/
lemma norm_mul_self (hv : v.length = n) : norm v * norm v = coords n v ⬝ᵥ coords n v := by
  rw [norm, inner_eq_dotProduct hv hv, Scalar.sqrt_real,
    Real.mul_self_sqrt (dotProduct_self_nonneg _)]

/-- Only a vector of zeros has length zero. -/
lemma coords_eq_zero_of_norm (hv : v.length = n) (h : norm v = 0) : coords n v = 0 := by
  have hself := norm_mul_self hv
  rw [h, zero_mul] at hself
  exact dotProduct_self_eq_zero.1 hself.symm

/-- A vector is its length times its unit vector. -/
lemma norm_mul_coords_normalize (hv : v.length = n) (i : Fin n) :
    norm v * coords n (normalize v) i = coords n v i := by
  by_cases h : norm v = 0
  · rw [coords_eq_zero_of_norm hv h, h, zero_mul, Pi.zero_apply]
  · have hnormalize : normalize v = v.map (· / norm v) := by simp [normalize, h]
    rw [hnormalize, coords_map hv]
    exact mul_div_cancel₀ _ h

/-- A vector is its length times its unit vector, as a whole. -/
lemma coords_eq_norm_smul (hv : v.length = n) : coords n v = norm v • coords n (normalize v) :=
  funext fun i => (norm_mul_coords_normalize hv i).symm

/-- A unit vector is a positive multiple of the vector it belongs to. -/
lemma exists_coords_normalize (hv : v.length = n) :
    ∃ c, 0 < c ∧ ∀ i, coords n (normalize v) i = c * coords n v i := by
  by_cases h : norm v = 0
  · have hnormalize : normalize v = v := by simp [normalize, h]
    exact ⟨1, one_pos, fun i => by rw [hnormalize, one_mul]⟩
  · refine ⟨(norm v)⁻¹, inv_pos.2 ((norm_nonneg v).lt_of_ne' h), fun i => ?_⟩
    rw [← norm_mul_coords_normalize hv i, inv_mul_cancel_left₀ h]

/-- A unit vector has length one, unless it is zero. -/
lemma normalize_dotProduct_self (hv : v.length = n) (h : norm v ≠ 0) :
    coords n (normalize v) ⬝ᵥ coords n (normalize v) = 1 := by
  have hself := norm_mul_self hv
  rw [coords_eq_norm_smul hv, smul_dotProduct, dotProduct_smul, smul_eq_mul, smul_eq_mul,
    ← mul_assoc] at hself
  exact mul_left_cancel₀ (mul_ne_zero h h) (by rw [mul_one]; exact hself.symm)

/-- The length of a vector, on coordinates. -/
lemma norm_eq_sqrt (hv : v.length = n) : norm v = √(coords n v ⬝ᵥ coords n v) := by
  rw [norm, inner_eq_dotProduct hv hv, Scalar.sqrt_real]

/-- Scaling a vector scales its length. -/
lemma norm_map_mul (a : ℝ) (v : Vec ℝ) : norm (v.map (a * ·)) = |a| * norm v := by
  have hcoords : coords v.length (v.map (a * ·)) = a • coords v.length v :=
    funext fun i => coords_map rfl i
  rw [norm_eq_sqrt (List.length_map _), hcoords, smul_dotProduct, dotProduct_smul, smul_eq_mul,
    smul_eq_mul, ← mul_assoc, Real.sqrt_mul (mul_self_nonneg a), Real.sqrt_mul_self_eq_abs,
    norm_eq_sqrt rfl]

/-- The coordinates of a vector with its signs changed. -/
lemma coords_neg (hv : v.length = n) : coords n v.neg = -coords n v := funext (coords_map hv)

/-- The length of a vector does not depend on its sign. -/
lemma norm_neg (v : Vec ℝ) : norm v.neg = norm v := by
  rw [norm_eq_sqrt (length_neg v), norm_eq_sqrt rfl, coords_neg rfl, neg_dotProduct_neg]

/-- A vector points against the unit vector of its negative. -/
lemma coords_eq_neg_norm_smul (hv : v.length = n) :
    coords n v = -(norm v • coords n (normalize v.neg)) := by
  rw [← norm_neg v, ← coords_eq_norm_smul ((length_neg v).trans hv), coords_neg hv, neg_neg]

/-- A vector has length zero exactly if its coordinates are zero. -/
lemma norm_eq_zero_iff (hv : v.length = n) : norm v = 0 ↔ coords n v = 0 := by
  constructor
  · exact coords_eq_zero_of_norm hv
  · intro h
    rw [norm_eq_sqrt hv, h, zero_dotProduct, Real.sqrt_zero]

/-- Vectors are at distance zero exactly if they are equal. -/
lemma norm_zipWith_sub_eq_zero_iff (hv : v.length = n) (hw : w.length = n) :
    norm (List.zipWith (· - ·) v w) = 0 ↔ v = w := by
  rw [norm_eq_zero_iff (n := n) (by simp [hv, hw]), coords_zipWith_sub hv hw, sub_eq_zero]
  exact ⟨eq_of_coords_eq hv hw, fun h => h ▸ rfl⟩

/-- The squared length of two vectors together is the sum of their squared lengths. -/
lemma norm_append_sq (v w : Vec ℝ) : norm (v ++ w) ^ 2 = norm v ^ 2 + norm w ^ 2 := by
  have hsq (u : Vec ℝ) : norm u ^ 2 = (u.map fun a => a * a).sum := by
    rw [sq, norm_mul_self rfl, ← inner_eq_dotProduct rfl rfl, inner, sum_real, List.zipWith_self]
  rw [hsq, hsq, hsq, List.map_append, List.sum_append]

/-- A vector of length zero is left as it is. -/
lemma normalize_of_norm_eq_zero (h : norm v = 0) : normalize v = v := by
  simp [normalize, h]

/-- A unit vector has length one, unless the vector it belongs to has length zero. -/
lemma norm_normalize_of_ne_zero (h : norm v ≠ 0) : norm (normalize v) = 1 := by
  rw [norm_eq_sqrt (length_normalize v), normalize_dotProduct_self rfl h, Real.sqrt_one]

/-- A unit vector has length zero exactly if the vector it belongs to has. -/
lemma norm_normalize_eq_zero_iff : norm (normalize v) = 0 ↔ norm v = 0 := by
  constructor
  · intro h
    by_contra hv
    rw [norm_normalize_of_ne_zero hv] at h
    exact one_ne_zero h
  · intro h
    rw [normalize_of_norm_eq_zero h, h]

/-- Unit vectors have length zero or one. -/
lemma norm_normalize (v : Vec ℝ) : norm (normalize v) = 0 ∨ norm (normalize v) = 1 := by
  by_cases h : norm v = 0
  · left
    rw [normalize_of_norm_eq_zero h, h]
  · right
    exact norm_normalize_of_ne_zero h

/-! ## Shares along a unit vector -/

/-- What is left of `w` when its share along the unit vector `g` is taken off. -/
lemma residual_dotProduct_self {g : Fin n → ℝ} (hg : g ⬝ᵥ g = 1) (w : Fin n → ℝ) :
    (w - (g ⬝ᵥ w) • g) ⬝ᵥ (w - (g ⬝ᵥ w) • g) = w ⬝ᵥ w - (g ⬝ᵥ w) ^ 2 := by
  simp only [sub_dotProduct, dotProduct_sub, smul_dotProduct, dotProduct_smul, smul_eq_mul, hg,
    dotProduct_comm w g]
  ring

/-- A vector is at least as long as its share along a unit vector. -/
lemma sq_dotProduct_le {g : Fin n → ℝ} (hg : g ⬝ᵥ g = 1) (w : Fin n → ℝ) :
    (g ⬝ᵥ w) ^ 2 ≤ w ⬝ᵥ w := by
  have hnonneg := dotProduct_self_nonneg (w - (g ⬝ᵥ w) • g)
  rw [residual_dotProduct_self hg] at hnonneg
  exact sub_nonneg.1 hnonneg

end HopfieldDescent.Vec
