import Mathlib
import HopfieldDescent.Proofs.BoxMap.RoundTrip

/-!
# The proxy distance as a derivative

When one hidden coordinate varies, the point of the box moves in that coordinate only.  Its speed at
the hidden state of a point strictly inside the box is the proxy distance of the point, twice that
for the two exponentials.  The width of the box cancels: the hidden coordinate is divided by it on
the way to the unit interval, and the value is multiplied by it on the way back.

The identity moves at speed one and has a proxy distance of zero, and is left out.
-/

namespace HopfieldDescent

namespace BoxMap

variable {kind : Activation}

/-- The slope of the squashing of one coordinate, at the hidden coordinate of a point strictly
inside the interval. -/
lemma hasDerivAt_lifted (hkind : kind ≠ .identity) {l u gain v : ℝ} (hgain : 0 < gain)
    (hv : v ∈ Set.Ioo l u) :
    HasDerivAt (fun h => lifted kind.squashing.activate h l u gain)
      (kind.slopeFactor * kind.squashing.proxy (normalized l u v) gain)
      (lifted kind.squashing.inverse v l u gain) := by
  have hlu : l < u := hv.1.trans hv.2
  have hback := kind.activate_inverse hgain (normalized_mem_Ioo hv)
  have hplace : normalized l u (lifted kind.squashing.inverse v l u gain) =
      kind.squashing.inverse (normalized l u v) gain := normalized_lifted hlu _ _ _
  have hinner : HasDerivAt (fun h => normalized l u h) (1 / (u - l))
      (lifted kind.squashing.inverse v l u gain) :=
    ((hasDerivAt_id _).sub_const l).div_const (u - l)
  have houter : HasDerivAt (fun z => kind.squashing.activate z gain)
      (kind.slopeFactor * kind.squashing.proxy (normalized l u v) gain)
      (normalized l u (lifted kind.squashing.inverse v l u gain)) := by
    have h := Activation.hasDerivAt_activate hkind hgain (hback.symm ▸ normalized_mem_Ioo hv)
    rwa [hback, ← hplace] at h
  refine (((houter.comp _ hinner).const_mul (u - l)).const_add l).congr_deriv ?_
  rw [mul_one_div, mul_div_cancel₀ _ (sub_pos.2 hlu).ne']

/-- When one coordinate of the hidden state of `x` varies, the point of the box moves with the slope
of that coordinate, and with no other coordinate. -/
lemma exists_hasDerivAt (hkind : kind ≠ .identity) {n : ℕ}
    {lower upper gains x hidden proxy : Vec ℝ}
    (hmap : (BoxMap.mk kind.squashing lower upper gains).Fits n)
    (hgains : ∀ gain ∈ gains, 0 < gain)
    (hx : ∀ i, Vec.coords n x i ∈ Set.Ioo (Vec.coords n lower i) (Vec.coords n upper i))
    (hhidden : (BoxMap.mk kind.squashing lower upper gains).inverse x = .ok hidden)
    (hproxy : (BoxMap.mk kind.squashing lower upper gains).proxyDistance x = .ok proxy)
    (i : Fin n) :
    ∃ point : ℝ → Vec ℝ,
      (∀ t, (BoxMap.mk kind.squashing lower upper gains).activate (hidden.set i t) =
        .ok (point t)) ∧
      HasDerivAt (fun t => Vec.coords n (point t))
        (Pi.single i (kind.slopeFactor * Vec.coords n proxy i)) (Vec.coords n hidden i) := by
  obtain ⟨-, hhn, hhcoords⟩ := Vec.coords_of_zipExact4 hhidden hmap.length_lower
  obtain ⟨-, -, hpcoords⟩ := Vec.coords_of_zipExact4 hproxy hmap.length_lower
  have hactivate (t : ℝ) :=
    returns_activate hmap (x := hidden.set i t) (by rw [List.length_set, hhn])
  choose point hpoint _ using hactivate
  refine ⟨point, hpoint, hasDerivAt_pi.2 fun j => ?_⟩
  have hcoords (t : ℝ) : Vec.coords n (point t) j =
      lifted kind.squashing.activate (Function.update (Vec.coords n hidden) i t j)
        (Vec.coords n lower j) (Vec.coords n upper j) (Vec.coords n gains j) := by
    obtain ⟨-, -, h⟩ := Vec.coords_of_zipExact4 (hpoint t) hmap.length_lower
    rw [h, Vec.coords_set hhn]
  simp only [hcoords]
  by_cases hji : j = i
  · subst hji
    simp only [Function.update_self, Pi.single_eq_same, hhcoords, hpcoords]
    exact hasDerivAt_lifted hkind (coords_pos_of_forall hmap.length_gain hgains j) (hx j)
  · simp only [Function.update_of_ne hji, Pi.single_eq_of_ne hji]
    exact hasDerivAt_const _ _

/-- The proxy distance of a point strictly inside a box is the derivative of the squashing at its
hidden state, up to the factor of the squashing function.  It is positive inside the unit interval
and vanishes outside. -/
theorem hasDerivAt_of_proxyDistance (kind : Activation) :
    (kind ≠ .identity → ∀ (n : ℕ) (lower upper gains x : Vec ℝ),
      (BoxMap.mk kind.squashing lower upper gains).Fits n → x.length = n →
      (∀ gain ∈ gains, 0 < gain) → Vec.strictlyInside lower upper x = true →
      ∃ hidden proxy, (BoxMap.mk kind.squashing lower upper gains).inverse x = .ok hidden ∧
        (BoxMap.mk kind.squashing lower upper gains).proxyDistance x = .ok proxy ∧
        ∀ i : Fin n, ∃ point : ℝ → Vec ℝ,
          (∀ t, (BoxMap.mk kind.squashing lower upper gains).activate (hidden.set i t) =
            .ok (point t)) ∧
          HasDerivAt (fun t => Vec.coords n (point t))
            (Pi.single i (kind.slopeFactor * Vec.coords n proxy i)) (Vec.coords n hidden i)) ∧
    ∀ gain : ℝ, 0 < gain →
      (∀ z ∉ Set.Ioo (0 : ℝ) 1, kind.squashing.proxy z gain = 0) ∧
      (kind ≠ .identity → ∀ z ∈ Set.Ioo (0 : ℝ) 1, 0 < kind.squashing.proxy z gain) := by
  constructor
  · intro hkind n lower upper gains x hmap hx hgains hinside
    obtain ⟨hidden, hhidden, -⟩ := returns_inverse hmap hx
    obtain ⟨proxy, hproxy, -⟩ := returns_proxyDistance hmap hx
    have hmem := (Vec.strictlyInside_iff hmap.length_lower hmap.length_upper hx).1 hinside
    exact ⟨hidden, proxy, hhidden, hproxy, exists_hasDerivAt hkind hmap hgains hmem hhidden hproxy⟩
  · intro gain hgain
    exact ⟨fun z hz => kind.proxy_eq_zero gain hz,
      fun hkind z hz => Activation.proxy_pos hkind hgain hz⟩

/-- The slope at the joint of the two exponentials, in the middle of an interval of width four: one,
twice the proxy distance. -/
theorem hasDerivAt_of_proxyDistance_joint :
    Activation.exponential ≠ .identity ∧
      (BoxMap.mk (R := ℝ) Activation.exponential.squashing [-1] [3] [1]).Fits 1 ∧
      Vec.strictlyInside (R := ℝ) [-1] [3] [1] = true ∧
      (∃ hidden, (BoxMap.mk (R := ℝ) Activation.exponential.squashing [-1] [3] [1]).inverse [1] =
          .ok hidden ∧
        ∃ point : ℝ → Vec ℝ,
          (∀ t, (BoxMap.mk Activation.exponential.squashing [-1] [3] [1]).activate
            (hidden.set 0 t) = .ok (point t)) ∧
          HasDerivAt (fun t => Vec.coords 1 (point t)) (Pi.single 0 1) (Vec.coords 1 hidden 0)) ∧
      (0 : ℝ) < 1 ∧ (Activation.exponential.squashing (R := ℝ)).proxy 2 1 = 0 ∧
      0 < (Activation.exponential.squashing (R := ℝ)).proxy (1 / 2) 1 := by
  have hkind : Activation.exponential ≠ .identity := by decide
  have hfits : (BoxMap.mk (R := ℝ) Activation.exponential.squashing [-1] [3] [1]).Fits 1 :=
    ⟨rfl, rfl, rfl⟩
  have hinside : Vec.strictlyInside (R := ℝ) [-1] [3] [1] = true := by
    norm_num [Vec.strictlyInside]
  obtain ⟨hidden, proxy, hhidden, hproxy, hslope⟩ := (hasDerivAt_of_proxyDistance .exponential).1
    hkind 1 [-1] [3] [1] [1] hfits rfl (by norm_num) hinside
  obtain ⟨point, hpoint, hderiv⟩ := hslope 0
  obtain ⟨-, -, hcoords⟩ := Vec.coords_of_zipExact4 hproxy (n := 1) rfl
  have hone : Activation.exponential.slopeFactor * Vec.coords 1 proxy 0 = 1 := by
    rw [hcoords]
    norm_num [Vec.coords, normalized, Activation.squashing, Activation.slopeFactor,
      ExponentialBranches.proxy, Scalar.clamp]
  rw [hone] at hderiv
  obtain ⟨hzero, hpos⟩ := (hasDerivAt_of_proxyDistance .exponential).2 1 one_pos
  exact ⟨hkind, hfits, hinside, ⟨hidden, hhidden, point, hpoint, hderiv⟩, one_pos,
    hzero 2 (by norm_num), hpos hkind (1 / 2) (by norm_num)⟩

end BoxMap

end HopfieldDescent
