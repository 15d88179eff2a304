import Mathlib
import HopfieldDescent.Proofs.Outcome
import HopfieldDescent.Proofs.Scalar.Extended
import HopfieldDescent.StepLength

/-!
# The trials of backtracking

Backtracking tries a step, half of it, half of that, and so on.  A trial may have a state, which it
hands on to the next one, and it may break off.  The trials are then a sequence that is known before
any of them is made: `StatefulTrial.stateAfter` is the state after so many of them, and
`StatefulTrial.outcome` is what each of them comes to.

Backtracking makes the beginning of this sequence, up to the first trial that breaks off or
decreases enough, or up to the last one for which there is room.  It returns the step of that trial
and the candidate it has led to (`StatefulTrial.exists_isLeast`).

A value that is not a number never decreases enough.  This is a law of comparison that double
precision scalars obey as well (`IeeeBound`).  The steps are halves of halves; without rounding they
are quotients by powers of two.
-/

namespace HopfieldDescent

namespace StepLength

variable {R : Type} [Scalar R]

/-! ## Halving -/

/-- A step halved a number of times. -/
def halved : (times : ℕ) → (step : R) → R
  | 0, step => step
  | times + 1, step => halved times (step * 0.5)

/-- The last half is half of the others. -/
lemma halved_succ (k : ℕ) (step : R) : halved (k + 1) step = halved k step * 0.5 := by
  induction k generalizing step with
  | zero => rfl
  | succ k ih => rw [halved, ih, halved]

/-- Halving divides by powers of two. -/
lemma halved_real (k : ℕ) (step : ℝ) : halved k step = step / 2 ^ k := by
  induction k with
  | zero => simp [halved]
  | succ k ih =>
    rw [halved_succ, ih, Scalar.literal_half, pow_succ]
    field_simp

/-- Halving divides by powers of two, also what is infinite or not a number. -/
lemma halved_extended (k : ℕ) (step : Extended) :
    halved k step = step / .finite (2 ^ k) := by
  have hpos (k : ℕ) : (0 : ℝ) < 2 ^ k := pow_pos two_pos k
  induction k with
  | zero =>
    rcases step with _ | negative | a
    · rfl
    · rw [halved, Extended.infinite_div_finite _ (hpos 0)]
    · simp [halved]
  | succ k ih =>
    rw [halved_succ, ih, Extended.literal, Scalar.literal_half]
    rcases step with _ | negative | a
    · rfl
    · rw [Extended.infinite_div_finite _ (hpos k), Extended.infinite_div_finite _ (hpos (k + 1)),
        Extended.infinite_mul_finite _ one_half_pos]
    · rw [Extended.finite_div (hpos k).ne', Extended.finite_div (hpos (k + 1)).ne',
        Extended.finite_mul, pow_succ]
      congr 1
      field_simp

/-! ## Trials with a state -/

/-- A trial with a state: at a step and from a state it comes to a value and a candidate, or it
breaks off, and either way it leaves a state. -/
abbrev StatefulTrial (ε σ R T : Type) : Type := R → σ → Except ε (R × T) × σ

namespace StatefulTrial

variable {ε σ T : Type} (trial : StatefulTrial ε σ R T) {current slope step : R} {s : σ} {i n : ℕ}

/-- Backtracking with a trial that has a state. -/
def backtrack (current slope : R) (halvings : ℕ) (step : R) (s : σ) : Except ε (R × T) × σ :=
  (StepLength.backtrack (fun step => (ExceptT.mk (trial step) : ExceptT ε (StateM σ) (R × T)))
    current slope halvings step).run s

/-- The state after so many trials, the first one of a step and each of half the step before. -/
def stateAfter (step : R) (s : σ) : ℕ → σ
  | 0 => s
  | i + 1 => (trial (halved i step) (stateAfter step s i)).2

/-- What the trial with number `i` comes to, after those before it. -/
def outcome (step : R) (s : σ) (i : ℕ) : Except ε (R × T) :=
  (trial (halved i step) (trial.stateAfter step s i)).1

/-- The trial with number `i` breaks off, or its value decreases enough. -/
def Ends (current slope step : R) (s : σ) (i : ℕ) : Prop :=
  ∀ value c, trial.outcome step s i = .ok (value, c) →
    value ≤ current + 0.5 * halved i step * slope

/-! ### The first trial and the others -/

/-- After the first trial come those of half the step. -/
lemma stateAfter_succ :
    trial.stateAfter step s (i + 1) = trial.stateAfter (step * 0.5) (trial step s).2 i := by
  induction i with
  | zero => rfl
  | succ i ih => rw [stateAfter, ih, stateAfter, halved]

lemma outcome_succ :
    trial.outcome step s (i + 1) = trial.outcome (step * 0.5) (trial step s).2 i := by
  rw [outcome, outcome, stateAfter_succ, halved]

lemma ends_succ : trial.Ends current slope step s (i + 1) ↔
    trial.Ends current slope (step * 0.5) (trial step s).2 i := by
  rw [Ends, Ends, outcome_succ, halved]

/-- The last trial is taken as it is. -/
lemma backtrack_zero : trial.backtrack current slope 0 step s =
    ((fun found => (step, found.2)) <$> (trial step s).1, (trial step s).2) := by
  rcases htrial : trial step s with ⟨e | ⟨value, c⟩, s'⟩
  all_goals
    simp only [backtrack, StepLength.backtrack, bind, ExceptT.bind, ExceptT.bindCont, ExceptT.mk,
      StateT.bind, ExceptT.run, htrial]
    rfl

/-- A trial that neither breaks off nor decreases enough is followed by the next one. -/
lemma backtrack_succ : trial.backtrack current slope (n + 1) step s =
    match trial step s with
    | (.ok (value, c), s') =>
      if accepts current slope step value then (.ok (step, c), s')
      else trial.backtrack current slope n (step * 0.5) s'
    | (.error e, s') => (.error e, s') := by
  rcases htrial : trial step s with ⟨e | ⟨value, c⟩, s'⟩
  all_goals
    simp only [backtrack, StepLength.backtrack, bind, ExceptT.bind, ExceptT.bindCont, ExceptT.mk,
      StateT.bind, ExceptT.run, htrial]
  · rfl
  · split_ifs
    · rfl
    · rfl

lemma backtrack_succ_of_ends (h : trial.Ends current slope step s 0) :
    trial.backtrack current slope (n + 1) step s =
      ((fun found => (step, found.2)) <$> (trial step s).1, (trial step s).2) := by
  rw [backtrack_succ]
  rcases htrial : trial step s with ⟨e | ⟨value, c⟩, s'⟩
  · rfl
  · have haccepts : accepts current slope step value = true :=
      decide_eq_true (h value c (congrArg Prod.fst htrial))
    simp only [haccepts, if_true]
    rfl

lemma backtrack_succ_of_not_ends (h : ¬trial.Ends current slope step s 0) :
    trial.backtrack current slope (n + 1) step s =
      trial.backtrack current slope n (step * 0.5) (trial step s).2 := by
  rw [backtrack_succ]
  rcases htrial : trial step s with ⟨e | ⟨value, c⟩, s'⟩
  · refine absurd (fun value c houtcome => ?_) h
    cases (congrArg Prod.fst htrial).symm.trans houtcome
  · have haccepts : accepts current slope step value = false := by
      refine decide_eq_false fun hle => h fun value' c' houtcome => ?_
      obtain ⟨⟩ := (congrArg Prod.fst htrial).symm.trans houtcome
      exact hle
    simp only [haccepts, Bool.false_eq_true, if_false]

/-! ### The trial that ends them -/

/-- Backtracking ends with the first trial that breaks off or decreases enough, or with the last one
for which there is room. -/
lemma exists_isLeast (current slope : R) (n : ℕ) (step : R) (s : σ) :
    ∃ j, IsLeast {i | i = n ∨ trial.Ends current slope step s i} j ∧
      trial.backtrack current slope n step s =
        ((fun found => (halved j step, found.2)) <$> trial.outcome step s j,
          trial.stateAfter step s (j + 1)) := by
  induction n generalizing step s with
  | zero => exact ⟨0, ⟨.inl rfl, fun _ _ => Nat.zero_le _⟩, trial.backtrack_zero⟩
  | succ n ih =>
    by_cases hfirst : trial.Ends current slope step s 0
    · exact ⟨0, ⟨.inr hfirst, fun _ _ => Nat.zero_le _⟩, trial.backtrack_succ_of_ends hfirst⟩
    · obtain ⟨j, ⟨hj, hleast⟩, hbacktrack⟩ := ih (step * 0.5) (trial step s).2
      refine ⟨j + 1, ⟨hj.imp (congrArg _) trial.ends_succ.2, fun i hi => ?_⟩, ?_⟩
      · cases i with
        | zero => exact absurd (hi.resolve_left n.succ_ne_zero.symm) hfirst
        | succ i => exact Nat.succ_le_succ (hleast (hi.imp Nat.succ.inj trial.ends_succ.1))
      · rw [trial.backtrack_succ_of_not_ends hfirst, hbacktrack, outcome_succ, halved,
          trial.stateAfter_succ (i := j + 1)]

/-! ### Keeping a list of the steps -/

/-- The same trial, with a list of the steps at which it has been made. -/
def noting : StatefulTrial ε (σ × List R) R T := fun step (s, steps) =>
  ((trial step s).1, ((trial step s).2, steps ++ [step]))

lemma stateAfter_noting (steps : List R) (i : ℕ) : trial.noting.stateAfter step (s, steps) i =
    (trial.stateAfter step s i, steps ++ (List.range i).map fun k => halved k step) := by
  induction i with
  | zero => simp [stateAfter]
  | succ i ih =>
    rw [stateAfter, ih, List.range_succ, List.map_append, ← List.append_assoc]
    rfl

lemma outcome_noting (steps : List R) (i : ℕ) :
    trial.noting.outcome step (s, steps) i = trial.outcome step s i := by
  rw [outcome, stateAfter_noting]
  rfl

lemma ends_noting (steps : List R) (i : ℕ) :
    trial.noting.Ends current slope step (s, steps) i ↔ trial.Ends current slope step s i := by
  rw [Ends, Ends, outcome_noting]

/-- Backtracking makes its trials at the halves of the first step, in order and at no others. -/
lemma backtrack_noting {j : ℕ}
    (hj : IsLeast {i | i = n ∨ trial.Ends current slope step s i} j) (steps : List R) :
    trial.noting.backtrack current slope n step (s, steps) =
      ((fun found => (halved j step, found.2)) <$> trial.outcome step s j,
        (trial.stateAfter step s (j + 1),
          steps ++ (List.range (j + 1)).map fun i => halved i step)) := by
  obtain ⟨k, hk, hbacktrack⟩ := trial.noting.exists_isLeast current slope n step (s, steps)
  simp only [ends_noting] at hk
  obtain rfl := hk.unique hj
  rw [hbacktrack, outcome_noting, stateAfter_noting]

/-- A trial without a state leaves any state as it is. -/
lemma backtrack_const (plain : R → Except ε (R × T)) (current slope : R) (n : ℕ) (step : R)
    (s : σ) : backtrack (fun step s => (plain step, s)) current slope n step s =
      (StepLength.backtrack plain current slope n step, s) := by
  induction n generalizing step with
  | zero =>
    rw [backtrack_zero, StepLength.backtrack]
    cases plain step <;> rfl
  | succ n ih =>
    rw [backtrack_succ, StepLength.backtrack]
    rcases plain step with e | ⟨value, c⟩
    · rfl
    · simp only [ih, Outcome.ok_bind]
      split_ifs
      · rfl
      · rfl

/-- A value that is not a number does not decrease enough. -/
lemma not_ends_of_isNaN [IeeeBound R] {value : R} {c : T}
    (houtcome : trial.outcome step s i = .ok (value, c)) (hvalue : Scalar.isNaN value = true) :
    ¬trial.Ends current slope step s i := by
  intro hends
  have hnumber := IeeeBound.isNaN_of_le (hends value c houtcome)
  rw [hvalue] at hnumber
  cases hnumber

/-- What backtracking does with a trial that has a state, whatever the trial is.  There is a first
trial with a number of at most 64 that breaks off or decreases enough, or the one with number 64 is
the last.  Trials are made up to that one, each at half the step of the one before and from the
state it left, and at no other steps; the step of the last one is returned with its candidate.  A
value that is not a number never decreases enough.  A trial may also have no state at all.  The
steps are the first one halved again and again, which without rounding divides it by powers of
two. -/
theorem first_of_backtrack [IeeeBound R] (trial : StatefulTrial ε σ R T)
    (current slope step : R) (s : σ) :
    (∃ j ≤ 64, IsLeast {i | i = 64 ∨ trial.Ends current slope step s i} j ∧
      trial.backtrack current slope maxHalvings step s =
        ((fun found => (halved j step, found.2)) <$> trial.outcome step s j,
          trial.stateAfter step s (j + 1)) ∧
      trial.noting.backtrack current slope maxHalvings step (s, []) =
        ((fun found => (halved j step, found.2)) <$> trial.outcome step s j,
          (trial.stateAfter step s (j + 1), (List.range (j + 1)).map fun i => halved i step))) ∧
    (∀ i value c, trial.outcome step s i = .ok (value, c) → Scalar.isNaN value = true →
      ¬trial.Ends current slope step s i) ∧
    (∀ plain : R → Except ε (R × T),
      backtrack (fun step s => (plain step, s)) current slope maxHalvings step s =
        (StepLength.backtrack plain current slope maxHalvings step, s)) ∧
    (∀ (i : ℕ) (a : ℝ), halved i a = a / 2 ^ i) ∧
    ∀ (i : ℕ) (a : Extended), halved i a = a / .finite (2 ^ i) := by
  refine ⟨?_, fun i value c => trial.not_ends_of_isNaN,
    fun plain => backtrack_const plain current slope maxHalvings step s, halved_real,
    halved_extended⟩
  obtain ⟨j, hj, hbacktrack⟩ := trial.exists_isLeast current slope maxHalvings step s
  exact ⟨j, hj.2 (.inl rfl), hj, hbacktrack, trial.backtrack_noting hj []⟩

/-- A trial that counts how often it has been made and never comes to a number. -/
def neverNumber : StatefulTrial Empty ℕ Extended ℕ := fun _ count => (.ok (.nan, count), count + 1)

lemma stateAfter_neverNumber (step : Extended) (i : ℕ) :
    neverNumber.stateAfter step 0 i = i := by
  induction i with
  | zero => rfl
  | succ i ih => rw [stateAfter, ih, neverNumber]

/-- A trial that never comes to a number is made 65 times, and the last one is taken. -/
theorem first_of_backtrack_neverNumber :
    Scalar.isNaN Extended.nan = true ∧
    neverNumber.backtrack (.finite 0) (.finite 0) maxHalvings (.finite 1) 0 =
      (.ok (.finite (1 / 2 ^ 64), 64), 65) ∧
    (neverNumber.noting.backtrack (.finite 0) (.finite 0) maxHalvings (.finite 1) (0, [])).2.2 =
      (List.range 65).map fun i => .finite (1 / 2 ^ i) := by
  obtain ⟨⟨j, hle, hj, hbacktrack, hnoting⟩, hnever, -, -, hhalved⟩ :=
    first_of_backtrack neverNumber (.finite 0) (.finite 0) (.finite 1) 0
  have houtcome (i : ℕ) : neverNumber.outcome (.finite 1) 0 i = .ok (.nan, i) := by
    rw [outcome, stateAfter_neverNumber, neverNumber]
  have hstep (i : ℕ) : halved i (.finite 1) = Extended.finite (1 / 2 ^ i) := by
    rw [hhalved, Extended.finite_div (by positivity)]
  obtain rfl : j = 64 := hj.1.resolve_right (hnever j .nan j (houtcome j) rfl)
  refine ⟨rfl, ?_, ?_⟩
  · rw [hbacktrack, houtcome, hstep, stateAfter_neverNumber]
    rfl
  · simp only [hnoting, hstep]

end StatefulTrial

end StepLength

end HopfieldDescent
