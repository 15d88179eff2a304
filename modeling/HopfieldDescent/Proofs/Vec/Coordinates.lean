import Mathlib
import HopfieldDescent.Proofs.Scalar.Exact
import HopfieldDescent.Proofs.Vec.Pairing

/-!
# Coordinates of vectors

A vector with `n` entries is read as a function on `Fin n` by `Vec.coords`.  Every vector operation
on operands of one length is then the pointwise operation, and the inner product is the dot product
of Mathlib, so that estimates can be made with functions instead of lists.
-/

namespace HopfieldDescent.Vec

variable {n : ℕ} {u v w z : Vec ℝ}

/-- The entries of a vector as a function of their number, zero beyond the last one. -/
def coords (n : ℕ) (v : Vec ℝ) : Fin n → ℝ := fun i => v[(i : ℕ)]?.getD 0

/-- The empty vector has no coordinate other than zero. -/
@[simp] lemma coords_nil : coords n [] = 0 := rfl

/-- The step from one vector to another, on coordinates. -/
def displacement (n : ℕ) (v w : Vec ℝ) : Fin n → ℝ := coords n w - coords n v

@[simp] lemma displacement_self (v : Vec ℝ) : displacement n v v = 0 := sub_self _

/-- A coordinate of a vector is one of its entries. -/
lemma coords_mem (hv : v.length = n) (i : Fin n) : coords n v i ∈ v := by
  simp only [coords, hv, i.isLt, getElem?_pos, Option.getD_some, List.getElem_mem]

/-- The coordinates of two vectors are paired by a list of pairs. -/
lemma coords_mem_zip (hv : v.length = n) (hw : w.length = n) (i : Fin n) :
    (coords n v i, coords n w i) ∈ List.zip v w := by
  refine List.mem_of_getElem? (i := i) (List.getElem?_zip_eq_some.2 ?_)
  simp [coords, hv, hw]

/-! ## Operations -/

lemma coords_eq_getElem (hv : v.length = n) (i : Fin n) : coords n v i = v[i] := by
  simp [coords, hv]

/-- The entry with the number of a coordinate is that coordinate. -/
lemma getElem?_eq_coords (hv : v.length = n) (i : Fin n) :
    v[(i : ℕ)]? = some (coords n v i) := by
  simp [coords, hv]

/-- Vectors of one length with the same coordinates are equal. -/
lemma eq_of_coords_eq (hv : v.length = n) (hw : w.length = n) (h : coords n v = coords n w) :
    v = w := by
  refine List.ext_getElem (hv.trans hw.symm) fun i hi hi' => ?_
  have := congrFun h ⟨i, hv ▸ hi⟩
  rwa [coords_eq_getElem hv, coords_eq_getElem hw] at this

/-- Pairing two vectors pairs their coordinates. -/
lemma coords_zipWith {f : ℝ → ℝ → ℝ} (hv : v.length = n) (hw : w.length = n) (i : Fin n) :
    coords n (List.zipWith f v w) i = f (coords n v i) (coords n w i) := by
  rw [coords_eq_getElem (by simp [hv, hw]), coords_eq_getElem hv, coords_eq_getElem hw]
  exact List.getElem_zipWith

/-- A difference of vectors is the difference of their coordinates. -/
lemma coords_zipWith_sub (hv : v.length = n) (hw : w.length = n) :
    coords n (List.zipWith (· - ·) v w) = coords n v - coords n w :=
  funext (coords_zipWith hv hw)

/-- The step to a sum is the second summand. -/
lemma displacement_zipWith_add (hv : v.length = n) (hw : w.length = n) :
    displacement n v (List.zipWith (· + ·) v w) = coords n w := by
  funext i
  rw [displacement, Pi.sub_apply, coords_zipWith hv hw, add_sub_cancel_left]

/-- Applying a function to each entry applies it to each coordinate. -/
lemma coords_map {f : ℝ → ℝ} (hv : v.length = n) (i : Fin n) :
    coords n (v.map f) i = f (coords n v i) := by
  rw [coords_eq_getElem (by simp [hv]), coords_eq_getElem hv]
  exact List.getElem_map f

/-- Replacing an entry replaces one coordinate. -/
lemma coords_set (hv : v.length = n) (i : Fin n) (t : ℝ) :
    coords n (v.set i t) = Function.update (coords n v) i t := by
  funext j
  rw [coords, List.getElem?_set]
  by_cases hij : (i : ℕ) = j
  · obtain rfl := Fin.ext hij
    simp [hv]
  · rw [if_neg hij, Function.update_of_ne fun h => hij (congrArg Fin.val h).symm]
    rfl

/-- A strict pairing of four vectors pairs their coordinates. -/
lemma coords_of_zipExact4 {f : ℝ → ℝ → ℝ → ℝ → ℝ} {t : Vec ℝ} (h : zipExact4 f t u v w = .ok z)
    (hu : u.length = n) : t.length = n ∧ z.length = n ∧
      ∀ i, coords n z i = f (coords n t i) (coords n u i) (coords n v i) (coords n w i) := by
  obtain ⟨htu, huv, hvw, -⟩ := zipExact4_eq_ok.1 h
  have hzn : z.length = n := (length_of_zipExact4 h).trans (htu.trans hu)
  refine ⟨htu.trans hu, hzn, fun i => ?_⟩
  have hi : (i : ℕ) < u.length := hu ▸ i.isLt
  have hentry := getElem?_of_zipExact4 h (List.getElem?_eq_getElem (htu ▸ hi))
    (List.getElem?_eq_getElem hi) (List.getElem?_eq_getElem (huv ▸ hi))
    (List.getElem?_eq_getElem (hvw ▸ huv ▸ hi))
  simp [coords, hentry, htu, ← huv, ← hvw, hi]

/-- A point lies strictly inside a box when all of its coordinates do. -/
lemma strictlyInside_iff (hu : u.length = n) (hw : w.length = n) (hv : v.length = n) :
    strictlyInside u w v = true ↔ ∀ i, coords n v i ∈ Set.Ioo (coords n u i) (coords n w i) := by
  constructor
  · intro h i
    have hmem : (coords n v i, coords n u i, coords n w i) ∈ List.zip v (List.zip u w) := by
      refine List.mem_of_getElem? (i := i) (List.getElem?_zip_eq_some.2 ?_)
      simp [coords, hv, hu, hw]
    simpa using List.all_eq_true.1 h _ hmem
  · intro h
    refine List.all_eq_true.2 fun entry hentry => ?_
    obtain ⟨i, hi, rfl⟩ := List.mem_iff_getElem.1 hentry
    have hin : i < n := by
      simp only [List.length_zip, hv, hu, hw, min_self] at hi
      exact hi
    have hmem := h ⟨i, hin⟩
    rw [coords_eq_getElem hv, coords_eq_getElem hu, coords_eq_getElem hw] at hmem
    simpa using hmem

/-! ## Sums -/

/-- Over the reals the order of summation does not matter. -/
lemma sum_real (v : Vec ℝ) : sum v = List.sum v := by
  unfold sum
  rw [List.sum_eq_foldl]
  norm_num

/-- The sum of the entries is the sum of the coordinates. -/
lemma sum_eq_sum_coords (hv : v.length = n) : sum v = ∑ i, coords n v i := by
  subst hv
  rw [sum_real, ← List.sum_ofFn]
  congr 1
  refine List.ext_getElem (by simp) fun i hi hi' => ?_
  simp [coords, hi]

/-- The inner product is the dot product of the coordinates. -/
lemma inner_eq_dotProduct (hv : v.length = n) (hw : w.length = n) :
    inner v w = coords n v ⬝ᵥ coords n w := by
  rw [inner, sum_eq_sum_coords (n := n) (by simp [hv, hw])]
  exact Finset.sum_congr rfl fun i _ => coords_zipWith hv hw i

/-- On vectors of one length the checked inner product is the dot product as well. -/
lemma dot_eq_dotProduct (hv : v.length = n) (hw : w.length = n) :
    dot v w = .ok (coords n v ⬝ᵥ coords n w) := by
  rw [← inner_eq_dotProduct hv hw]
  exact Outcome.bind_eq_ok.2 ⟨(), Breach.sameLength_eq_ok.2 (hv.trans hw.symm), rfl⟩

/-- The squared length is not negative. -/
lemma dotProduct_self_nonneg (r : Fin n → ℝ) : 0 ≤ r ⬝ᵥ r := by
  simpa using dotProduct_self_star_nonneg r

/-- A vector of zeros has length zero. -/
lemma norm_eq_zero_of_forall (h : ∀ a ∈ v, a = 0) : norm v = 0 := by
  have hv : v = List.replicate v.length 0 := List.eq_replicate_iff.2 ⟨rfl, h⟩
  rw [hv, norm, inner, sum_real]
  simp

/-- The product of a vector of zeros with any vector has only zeros. -/
lemma eq_zero_of_mem_mul (h : mul v w = .ok z) (hv : ∀ a ∈ v, a = 0) : ∀ a ∈ z, a = 0 := by
  intro a ha
  unfold mul zipSpread at h
  split_ifs at h with hlength
  · obtain rfl := Except.ok.inj h
    obtain ⟨i, hi, rfl⟩ := List.mem_iff_getElem.1 ha
    rw [List.getElem_zipWith, hv _ (List.getElem_mem _), zero_mul]
  · split at h
    · obtain rfl := Except.ok.inj h
      obtain ⟨b, -, rfl⟩ := List.mem_map.1 ha
      simp [hv _ (List.mem_singleton_self _)]
    · obtain rfl := Except.ok.inj h
      obtain ⟨b, hb, rfl⟩ := List.mem_map.1 ha
      simp [hv b hb]
    · cases h

end HopfieldDescent.Vec
