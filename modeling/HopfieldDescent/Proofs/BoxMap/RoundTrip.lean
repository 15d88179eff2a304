import Mathlib
import HopfieldDescent.Proofs.BoxMap.Step
import HopfieldDescent.Proofs.Direction.Total
import HopfieldDescent.Proofs.Squashing.Unsaturated

/-!
# There and back

A squashing function and the inverse that comes with it undo each other as far as the function is
not saturated: the function undoes its inverse on the open unit interval, and the inverse undoes the
function at every hidden coordinate with a value in there.  Together with the order and the symmetry
of the function this is `Squashing.RoundTrips`.  A point strictly inside a box therefore has a
hidden state, and that state is squashed back to the point (`Activation.round_trips`).
-/

namespace HopfieldDescent

/-- A function and its inverse undo each other where the function is not saturated.  The function
never falls, and it is symmetric about the centre. -/
structure Squashing.RoundTrips (s : Squashing ℝ) (gain : ℝ) : Prop where
  /-- The function undoes its inverse. -/
  activate_inverse : ∀ v ∈ Set.Ioo (0 : ℝ) 1, s.activate (s.inverse v gain) gain = v
  /-- The inverse undoes the function. -/
  inverse_activate : ∀ z, s.activate z gain ∈ Set.Ioo (0 : ℝ) 1 →
    s.inverse (s.activate z gain) gain = z
  /-- A larger hidden coordinate has no smaller value. -/
  monotone : Monotone fun z => s.activate z gain
  /-- Hidden coordinates that are reflections of each other have such values. -/
  activate_one_sub : ∀ z, s.activate (1 - z) gain = 1 - s.activate z gain

/-- Gains that are positive in a list are positive in each coordinate. -/
lemma coords_pos_of_forall {gains : Vec ℝ} {n : ℕ} (hn : gains.length = n)
    (hgains : ∀ gain ∈ gains, 0 < gain) (i : Fin n) : 0 < Vec.coords n gains i :=
  hgains _ (Vec.coords_mem hn i)

/-- Each squashing function and its inverse undo each other, and a point strictly inside a box is
what its hidden state is squashed to. -/
theorem Activation.round_trips (kind : Activation) :
    (∀ gain : ℝ, 0 < gain → kind.squashing.RoundTrips gain) ∧
    ∀ (n : ℕ) (lower upper gains x : Vec ℝ),
      (BoxMap.mk kind.squashing lower upper gains).Fits n → x.length = n →
      (∀ gain ∈ gains, 0 < gain) → Vec.strictlyInside lower upper x = true →
      ∃ hidden, (BoxMap.mk kind.squashing lower upper gains).inverse x = .ok hidden ∧
        (BoxMap.mk kind.squashing lower upper gains).activate hidden = .ok x := by
  constructor
  · intro gain hgain
    exact ⟨fun _ hv => kind.activate_inverse hgain hv, fun _ hz => kind.inverse_activate hgain hz,
      kind.monotone_activate hgain, kind.activate_one_sub hgain⟩
  · intro n lower upper gains x hmap hx hgains hinside
    obtain ⟨hidden, hhidden, -⟩ := BoxMap.returns_inverse hmap hx
    refine ⟨hidden, hhidden, ?_⟩
    have hmem := (Vec.strictlyInside_iff hmap.length_lower hmap.length_upper hx).1 hinside
    exact BoxMap.activate_inverse hmap.length_lower
      (coords_pos_of_forall hmap.length_gain hgains) hmem hhidden

/-- The two exponentials round the joint of their branches, and in a box that is wide in one
direction and narrow in the other. -/
theorem Activation.round_trips_exponential :
    (0 : ℝ) < 2 ∧
      (Activation.exponential.squashing (R := ℝ)).activate
        (Activation.exponential.squashing.inverse (1 / 4) 2) 2 = 1 / 4 ∧
      (Activation.exponential.squashing (R := ℝ)).activate (1 / 2) 2 ∈ Set.Ioo (0 : ℝ) 1 ∧
      (Activation.exponential.squashing (R := ℝ)).inverse
        (Activation.exponential.squashing.activate (1 / 2) 2) 2 = 1 / 2 ∧
      (BoxMap.mk (R := ℝ) Activation.exponential.squashing [-1, 2] [3, 2.5] [1.5, 1.5]).Fits 2 ∧
      Vec.strictlyInside (R := ℝ) [-1, 2] [3, 2.5] [0.7, 2.1] = true ∧
      ∃ hidden, (BoxMap.mk (R := ℝ) Activation.exponential.squashing [-1, 2] [3, 2.5]
          [1.5, 1.5]).inverse [0.7, 2.1] = .ok hidden ∧
        (BoxMap.mk Activation.exponential.squashing [-1, 2] [3, 2.5] [1.5, 1.5]).activate hidden =
          .ok [0.7, 2.1] := by
  have hgain : (0 : ℝ) < 2 := two_pos
  have hcentre : (Activation.exponential.squashing (R := ℝ)).activate (1 / 2) 2 = 1 / 2 := by
    have h := Activation.exponential.activate_one_sub hgain (1 / 2)
    rw [sub_half] at h
    linarith
  have hmem : (Activation.exponential.squashing (R := ℝ)).activate (1 / 2) 2 ∈
      Set.Ioo (0 : ℝ) 1 := by
    rw [hcentre]
    norm_num
  have hfits : (BoxMap.mk (R := ℝ) Activation.exponential.squashing [-1, 2] [3, 2.5]
      [1.5, 1.5]).Fits 2 := ⟨rfl, rfl, rfl⟩
  have hinside : Vec.strictlyInside (R := ℝ) [-1, 2] [3, 2.5] [0.7, 2.1] = true := by
    norm_num [Vec.strictlyInside]
  have htrips := (Activation.round_trips .exponential).1 2 hgain
  refine ⟨hgain, htrips.activate_inverse (1 / 4) (by norm_num), hmem,
    htrips.inverse_activate (1 / 2) hmem, hfits, hinside, ?_⟩
  exact (Activation.round_trips .exponential).2 2 [-1, 2] [3, 2.5] [1.5, 1.5] [0.7, 2.1] hfits rfl
    (by norm_num) hinside

end HopfieldDescent
