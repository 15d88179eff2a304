import Mathlib
import HopfieldDescent.Proofs.Outcome
import HopfieldDescent.Vec

/-!
# Pairing the entries of vectors

The three kinds of pairings differ only on vectors of different lengths.  On vectors of one length
each of them is `List.zipWith`, and the strict kind succeeds on no others.  What is needed of the
lenient kinds beyond that is the length of their results: an update keeps the length of its left
operand, whatever the right one is.  On operands of one length no pairing is a breach.
-/

namespace HopfieldDescent.Vec

variable {α β γ δ ε : Type}

/-! ## Strict pairings -/

/-- A strict pairing succeeds on vectors of one length and pairs their entries in order. -/
lemma zipExact_eq_ok {f : α → β → γ} {v : List α} {w : List β} {z : List γ} :
    zipExact f v w = .ok z ↔ v.length = w.length ∧ List.zipWith f v w = z := by
  simp only [zipExact, Outcome.bind_eq_ok, Breach.sameLength_eq_ok, Outcome.pure_eq_ok,
    exists_const]

/-- A strict pairing has the length of its operands. -/
lemma length_of_zipExact {f : α → β → γ} {v : List α} {w : List β} {z : List γ}
    (h : zipExact f v w = .ok z) : z.length = v.length ∧ z.length = w.length := by
  obtain ⟨hlen, rfl⟩ := zipExact_eq_ok.1 h
  simp [hlen]

/-- A strict pairing of three vectors succeeds on vectors of one length. -/
lemma zipExact3_eq_ok {f : α → β → γ → δ} {u : List α} {v : List β} {w : List γ} {z : List δ} :
    zipExact3 f u v w = .ok z ↔ u.length = v.length ∧ v.length = w.length ∧
      List.zipWith (fun a p => f a p.1 p.2) u (List.zip v w) = z := by
  simp only [zipExact3, Outcome.bind_eq_ok, zipExact_eq_ok]
  constructor
  · rintro ⟨pairs, ⟨hvw, rfl⟩, huw, hz⟩
    exact ⟨by simpa [hvw] using huw, hvw, hz⟩
  · rintro ⟨huv, hvw, hz⟩
    exact ⟨_, ⟨hvw, rfl⟩, by simp [huv, hvw], hz⟩

/-- A strict pairing of four vectors succeeds on vectors of one length. -/
lemma zipExact4_eq_ok {f : α → β → γ → δ → ε} {t : List α} {u : List β} {v : List γ} {w : List δ}
    {z : List ε} :
    zipExact4 f t u v w = .ok z ↔ t.length = u.length ∧ u.length = v.length ∧
      v.length = w.length ∧
      List.zipWith (fun a p => f a p.1 p.2.1 p.2.2) t (List.zip u (List.zip v w)) = z := by
  simp only [zipExact4, Outcome.bind_eq_ok, zipExact_eq_ok, zipExact3_eq_ok]
  constructor
  · rintro ⟨triples, ⟨huv, hvw, rfl⟩, htu, hz⟩
    have hzip : List.zipWith (fun b (p : γ × δ) => (b, p.1, p.2)) u (List.zip v w) =
        List.zip u (List.zip v w) := rfl
    rw [hzip] at htu hz
    exact ⟨by simpa [huv, hvw] using htu, huv, hvw, hz⟩
  · rintro ⟨htu, huv, hvw, hz⟩
    exact ⟨_, ⟨huv, hvw, rfl⟩, by simp [htu, huv, hvw], hz⟩

/-- A strict pairing of four vectors has their length. -/
lemma length_of_zipExact4 {f : α → β → γ → δ → ε} {t : List α} {u : List β} {v : List γ}
    {w : List δ} {z : List ε} (h : zipExact4 f t u v w = .ok z) : z.length = t.length := by
  obtain ⟨htu, huv, hvw, rfl⟩ := zipExact4_eq_ok.1 h
  simp [htu, huv, hvw]

/-- Every entry of a strict pairing of four vectors comes from one entry of each. -/
lemma getElem?_of_zipExact4 {f : α → β → γ → δ → ε} {t : List α} {u : List β} {v : List γ}
    {w : List δ} {z : List ε} (h : zipExact4 f t u v w = .ok z) {i : Nat} {a : α} {b : β} {c : γ}
    {d : δ} (ha : t[i]? = some a) (hb : u[i]? = some b) (hc : v[i]? = some c)
    (hd : w[i]? = some d) : z[i]? = some (f a b c d) := by
  obtain ⟨-, -, -, rfl⟩ := zipExact4_eq_ok.1 h
  simp [List.getElem?_zipWith, List.zip, ha, hb, hc, hd]

/-! ## Lenient pairings -/

/-- Combining vectors of one length pairs their entries in order. -/
lemma zipSpread_of_length_eq {f : α → β → γ} {v : List α} {w : List β}
    (h : v.length = w.length) : zipSpread f v w = .ok (List.zipWith f v w) := by
  simp [zipSpread, h]

/-- Updating a vector by one of its length pairs the entries in order. -/
lemma zipOnto_of_length_eq {f : α → β → γ} {v : List α} {w : List β}
    (h : v.length = w.length) : zipOnto f v w = .ok (List.zipWith f v w) := by
  simp [zipOnto, h]

/-- Only a vector of the same length or a single entry updates a vector. -/
lemma length_eq_or_of_zipOnto {f : α → β → γ} {v : List α} {w : List β} {z : List γ}
    (h : zipOnto f v w = .ok z) : v.length = w.length ∨ w.length = 1 := by
  unfold zipOnto at h
  split_ifs at h with hlen
  · exact .inl hlen
  · split at h
    · exact .inr rfl
    · cases h

/-- An update keeps the length. -/
lemma length_of_zipOnto {f : α → β → γ} {v : List α} {w : List β} {z : List γ}
    (h : zipOnto f v w = .ok z) : z.length = v.length := by
  unfold zipOnto at h
  split_ifs at h with hlen
  · obtain rfl := Except.ok.inj h
    simp [hlen]
  · split at h
    · obtain rfl := Except.ok.inj h
      simp
    · cases h

/-! ## Operands of one length

On operands of one length every pairing returns, and its result has that length as well. -/

section Sizes

variable {n : Nat} {t : List α} {u : List β} {v : List γ} {w : List δ}

/-- Two operands of one length are paired. -/
lemma returns_zipExact {f : α → β → γ} (ht : t.length = n) (hu : u.length = n) :
    Outcome.Returns (zipExact f t u) fun z => z.length = n :=
  ⟨_, zipExact_eq_ok.2 ⟨ht.trans hu.symm, rfl⟩, by simp [ht, hu]⟩

/-- Three operands of one length are paired. -/
lemma returns_zipExact3 {f : α → β → γ → δ} (ht : t.length = n) (hu : u.length = n)
    (hv : v.length = n) : Outcome.Returns (zipExact3 f t u v) fun z => z.length = n :=
  ⟨_, zipExact3_eq_ok.2 ⟨ht.trans hu.symm, hu.trans hv.symm, rfl⟩, by simp [ht, hu, hv]⟩

/-- Four operands of one length are paired. -/
lemma returns_zipExact4 {f : α → β → γ → δ → ε} (ht : t.length = n) (hu : u.length = n)
    (hv : v.length = n) (hw : w.length = n) :
    Outcome.Returns (zipExact4 f t u v w) fun z => z.length = n :=
  ⟨_, zipExact4_eq_ok.2 ⟨ht.trans hu.symm, hu.trans hv.symm, hv.trans hw.symm, rfl⟩,
    by simp [ht, hu, hv, hw]⟩

/-- An operand is combined with one of its length. -/
lemma returns_zipSpread {f : α → β → γ} (ht : t.length = n) (hu : u.length = n) :
    Outcome.Returns (zipSpread f t u) fun z => z.length = n :=
  ⟨_, zipSpread_of_length_eq (ht.trans hu.symm), by simp [ht, hu]⟩

/-- An operand is updated by one of its length. -/
lemma returns_zipOnto {f : α → β → γ} (ht : t.length = n) (hu : u.length = n) :
    Outcome.Returns (zipOnto f t u) fun z => z.length = n :=
  ⟨_, zipOnto_of_length_eq (ht.trans hu.symm), by simp [ht, hu]⟩

variable {R : Type} [Scalar R]

/-- Two vectors of one length have an inner product. -/
lemma returns_dot {p q : Vec R} (h : p.length = q.length) :
    Outcome.Returns (dot p q) fun _ => True :=
  ⟨inner p q, Outcome.bind_eq_ok.2 ⟨(), Breach.sameLength_eq_ok.2 h, rfl⟩, trivial⟩

/-- A unit vector has as many entries as the vector it belongs to. -/
@[simp] lemma length_normalize (p : Vec R) : (normalize p).length = p.length := by
  unfold normalize
  dsimp only
  split_ifs <;> simp

@[simp] lemma length_neg (p : Vec R) : (neg p).length = p.length := List.length_map _

@[simp] lemma length_scale (p : Vec R) (a : R) : (scale p a).length = p.length :=
  List.length_map _

@[simp] lemma length_zeros (m : Nat) : (zeros m : Vec R).length = m := List.length_replicate

end Sizes

end HopfieldDescent.Vec
