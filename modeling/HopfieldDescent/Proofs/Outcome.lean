import Mathlib
import HopfieldDescent.Breach

/-!
# What a successful computation says about its parts

A checked computation is a chain of parts, and each part may end in a breach or in a refusal.  If
the chain succeeds, then every part has succeeded, and the results fit together.  The lemmas below
read a chain in this way, so that the parts can be looked at one after the other and the chain never
has to be unfolded.  `Outcome.Returns` and `Outcome.Answers` put a chain together in the same steps.
-/

namespace HopfieldDescent

namespace Outcome

variable {ε α β : Type}

/-- A chain of two parts succeeds when both parts do, the second on the result of the first. -/
lemma bind_eq_ok {x : Except ε α} {f : α → Except ε β} {b : β} :
    (x >>= f) = .ok b ↔ ∃ a, x = .ok a ∧ f a = .ok b := by
  cases x <;> simp [bind, Except.bind]

/-- A mapped computation succeeds when the computation does. -/
lemma map_eq_ok {x : Except ε α} {f : α → β} {b : β} :
    (f <$> x) = .ok b ↔ ∃ a, x = .ok a ∧ f a = b := by
  cases x <;> simp [Functor.map, Except.map]

/-- A value that is returned is the result. -/
lemma pure_eq_ok {a b : α} : (pure a : Except ε α) = .ok b ↔ a = b := by
  simp [pure, Except.pure]

/-- A chain that starts with a success goes on with its value. -/
lemma ok_bind {a : α} {f : α → Except ε β} : ((Except.ok a : Except ε α) >>= f) = f a := rfl

/-- A function is applied to a success. -/
lemma ok_map {a : α} {f : α → β} : f <$> (Except.ok a : Except ε α) = .ok (f a) := rfl

/-- A checked computation that succeeds does so inside one that may also refuse. -/
lemma liftM_ok {a : α} : (liftM (.ok a : Checked α) : Except (Failure ε) α) = .ok a := rfl

/-- A step that only ever refuses goes on with its successes. -/
lemma ofExcept_ok {a : α} : Failure.ofExcept (.ok a : Except ε α) = .ok a := rfl

/-- A choice between a computation and a refusal succeeds only as the computation. -/
lemma ite_error_eq_ok {p : Prop} [Decidable p] {x : Except ε α} {e : ε} {a : α} :
    (if p then x else .error e) = .ok a ↔ p ∧ x = .ok a := by
  by_cases hp : p <;> simp [hp]

/-- A step that only ever refuses keeps its successes when refusals become failures. -/
lemma ofExcept_eq_ok {x : Except ε α} {a : α} : Failure.ofExcept x = .ok a ↔ x = .ok a := by
  cases x <;> simp [Failure.ofExcept]

/-- What never succeeds ends in an error. -/
lemma exists_eq_error {x : Except ε α} (h : ∀ a, x ≠ .ok a) : ∃ e, x = .error e := by
  cases x with
  | error e => exact ⟨e, rfl⟩
  | ok a => exact absurd rfl (h a)

/-- A refusal ends a chain. -/
lemma throw_bind_ne_ok {e : ε} {f : α → Except ε β} {b : β} : (throw e >>= f) ≠ .ok b := by
  simp [throw, throwThe, MonadExceptOf.throw, bind, Except.bind]

/-- A refusal ends a chain of steps that may also fail. -/
lemma refuse_bind_ne_ok {e : ε} {f : α → Except (Failure ε) β} {b : β} :
    (Failure.refuse e >>= f) ≠ .ok b := by
  simp [Failure.refuse, bind, Except.bind]

/-- A checked computation keeps its successes inside one that may also refuse. -/
lemma liftM_eq_ok {x : Checked α} {a : α} :
    (liftM x : Except (Failure ε) α) = .ok a ↔ x = .ok a := by
  cases x <;> simp [liftM, monadLift, MonadLift.monadLift]

/-- A traversal succeeds when it does so on every entry, and gathers the results in order. -/
lemma mapM_eq_ok {f : α → Except ε β} {as : List α} {bs : List β} :
    as.mapM f = .ok bs ↔ List.Forall₂ (fun a b => f a = .ok b) as bs := by
  induction as generalizing bs with
  | nil =>
    rw [List.mapM_nil, pure_eq_ok, List.forall₂_nil_left_iff, eq_comm]
  | cons a as ih =>
    simp only [List.mapM_cons, bind_eq_ok, pure_eq_ok, ih, List.forall₂_cons_left_iff]
    constructor
    · rintro ⟨b, hb, rest, hrest, rfl⟩
      exact ⟨b, rest, hb, hrest, rfl⟩
    · rintro ⟨b, rest, hb, hrest, rfl⟩
      exact ⟨b, hb, rest, hrest, rfl⟩

/-- A traversal is told by what it does on the entries. -/
lemma mapM_congr {f g : α → Except ε β} {as : List α} (h : ∀ a ∈ as, f a = g a) :
    as.mapM f = as.mapM g := by
  induction as with
  | nil => rfl
  | cons a as ih =>
    rw [List.mapM_cons, List.mapM_cons, h a List.mem_cons_self,
      ih fun b hb => h b (List.mem_cons_of_mem a hb)]

/-- A traversal that succeeds on every entry gathers the values. -/
lemma mapM_eq_map {f : α → Except ε β} {g : α → β} {as : List α} (h : ∀ a ∈ as, f a = .ok (g a)) :
    as.mapM f = .ok (as.map g) :=
  (mapM_congr h).trans (List.mapM_pure)

/-- Every entry of a traversed list has its result among the results. -/
lemma exists_mem_of_mapM {f : α → Except ε β} {as : List α} {bs : List β} (h : as.mapM f = .ok bs)
    {a : α} (ha : a ∈ as) : ∃ b ∈ bs, f a = .ok b := by
  obtain ⟨i, hi, rfl⟩ := List.mem_iff_getElem.1 ha
  obtain ⟨hlength, hget⟩ := List.forall₂_iff_get.1 (mapM_eq_ok.1 h)
  exact ⟨_, List.get_mem bs ⟨i, hlength ▸ hi⟩, hget i hi (hlength ▸ hi)⟩

/-- Every result of a traversal is that of an entry. -/
lemma exists_of_mem_mapM {f : α → Except ε β} {as : List α} {bs : List β} (h : as.mapM f = .ok bs)
    {b : β} (hb : b ∈ bs) : ∃ a ∈ as, f a = .ok b := by
  obtain ⟨i, hi, rfl⟩ := List.mem_iff_getElem.1 hb
  obtain ⟨hlength, hget⟩ := List.forall₂_iff_get.1 (mapM_eq_ok.1 h)
  exact ⟨_, List.get_mem as ⟨i, hlength ▸ hi⟩, hget i (hlength ▸ hi) hi⟩

/-! ## Computations that return

The lemmas above read a success backwards.  `Returns` is the other direction: a chain returns when
its first part returns and the rest returns on whatever the first part may return. -/

/-- A computation succeeds, with a value that has a property. -/
def Returns (x : Except ε α) (P : α → Prop) : Prop := ∃ a, x = .ok a ∧ P a

namespace Returns

variable {P Q : α → Prop} {S : β → Prop} {x : Except ε α}

/-- A success returns. -/
lemma ok {a : α} (h : P a) : Returns (.ok a : Except ε α) P := ⟨a, rfl, h⟩

/-- What returns with a property returns with a weaker one. -/
lemma imp (hx : Returns x P) (h : ∀ a, P a → Q a) : Returns x Q := by
  obtain ⟨a, ha, hP⟩ := hx
  exact ⟨a, ha, h a hP⟩

/-- A chain of two parts returns when both do. -/
lemma bind {f : α → Except ε β} (hx : Returns x P) (hf : ∀ a, P a → Returns (f a) S) :
    Returns (x >>= f) S := by
  obtain ⟨a, rfl, ha⟩ := hx
  exact hf a ha

/-- A chain with two ways to begin returns when either one does, and the rest. -/
lemma ite_bind {c : Prop} [Decidable c] {y : Except ε α} {f : α → Except ε β} (hx : Returns x P)
    (hy : Returns y P) (hf : ∀ a, P a → Returns (f a) S) :
    Returns (if c then x >>= f else y >>= f) S := by
  split_ifs
  · exact hx.bind hf
  · exact hy.bind hf

/-- A mapped computation returns when the computation does. -/
lemma map {f : α → β} (hx : Returns x P) (hf : ∀ a, P a → S (f a)) : Returns (f <$> x) S := by
  obtain ⟨a, rfl, ha⟩ := hx
  exact ⟨f a, rfl, hf a ha⟩

/-- A traversal returns one value for each entry when it returns on every entry. -/
lemma mapM {f : α → Except ε β} {as : List α} (h : ∀ a ∈ as, Returns (f a) fun _ => True) :
    Returns (as.mapM f) fun bs => bs.length = as.length := by
  induction as with
  | nil => exact ⟨[], rfl, rfl⟩
  | cons a as ih =>
    rw [List.mapM_cons]
    refine (h a List.mem_cons_self).bind fun b _ => ?_
    refine (ih fun c hc => h c (List.mem_cons_of_mem _ hc)).bind fun bs hbs => ?_
    exact ok (by simp [hbs])

end Returns

/-! ## Computations that may refuse -/

/-- A computation succeeds, with a value that has a property, or it refuses.  It does not end in a
breach. -/
def Answers (x : Except (Failure ε) α) (P : α → Prop) : Prop :=
  (∃ a, x = .ok a ∧ P a) ∨ ∃ cause, x = .error (.refused cause)

namespace Answers

variable {P : α → Prop} {S : β → Prop}

/-- A success is an answer. -/
lemma ok {a : α} (h : P a) : Answers (.ok a : Except (Failure ε) α) P := .inl ⟨a, rfl, h⟩

/-- A refusal is an answer. -/
lemma refuse (cause : ε) : Answers (Failure.refuse cause) P := .inr ⟨cause, rfl⟩

/-- A step that only ever refuses gives an answer. -/
lemma ofExcept {x : Except ε α} (h : ∀ a, x = .ok a → P a) : Answers (Failure.ofExcept x) P := by
  cases x with
  | error cause => exact .inr ⟨cause, rfl⟩
  | ok a => exact .inl ⟨a, rfl, h a rfl⟩

/-- A checked computation that returns gives an answer. -/
lemma liftM {x : Checked α} (h : Returns x P) :
    Answers (liftM x : Except (Failure ε) α) P := by
  obtain ⟨a, rfl, ha⟩ := h
  exact .inl ⟨a, rfl, ha⟩

/-- A chain of two parts gives an answer when both do. -/
lemma bind {x : Except (Failure ε) α} {f : α → Except (Failure ε) β} (hx : Answers x P)
    (hf : ∀ a, P a → Answers (f a) S) : Answers (x >>= f) S := by
  obtain ⟨a, rfl, ha⟩ | ⟨cause, rfl⟩ := hx
  · exact hf a ha
  · exact .inr ⟨cause, rfl⟩

end Answers

end Outcome

namespace Breach

/-- Lengths are found to agree only when they do. -/
lemma sameLength_eq_ok {left right : Nat} {u : Unit} :
    sameLength left right = .ok u ↔ left = right := by
  simp [sameLength]

end Breach

end HopfieldDescent
