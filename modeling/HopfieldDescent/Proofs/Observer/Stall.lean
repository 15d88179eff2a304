import Mathlib
import HopfieldDescent.Observer.Stall
import HopfieldDescent.Proofs.Scalar.Extended

/-!
# What a stall observer remembers

The observer of stalled runs keeps two values, the best objective and a count, and from them it
answers as if it had kept every objective it was shown.  Here the objectives are extended scalars,
and the history of an observer is the list of the *places* among the extended reals of those that
were numbers.

An objective fails (`Fails`) when it is not below the least one before it by more than the
tolerance, and patience runs out (`RunsOut`) when it is spent by the last objectives of the history
all failing.  One objective more turns a window of one length into a window of the next
(`runsOut_append`): this is the count of the observer, and why it may forget the objectives
themselves.  `Remembers` relates a state to a history.  It holds at the start, it is kept by every
event (`Remembers.observe`), and it leaves one state for a history (`Remembers.unique`).
-/

namespace HopfieldDescent

/-- The state of an observer after a list of events. -/
def Observer.after {σ ε α : Type} (observer : Observer σ ε α) (state : σ) (events : List ε) : σ :=
  events.foldl (fun s event => (observer.observe s event).2) state

lemma Observer.after_append {σ ε α : Type} (observer : Observer σ ε α) (state : σ)
    (events : List ε) (event : ε) :
    observer.after state (events ++ [event]) =
      (observer.observe (observer.after state events) event).2 := by
  simp [after]

namespace Stall

/-! ## Histories -/

section Histories

variable {ε : Type} [HasObjective ε Extended]

/-- The place of the objective of an event, if it has one and it is a number. -/
noncomputable def place? (event : ε) : Option EReal :=
  (HasObjective.objective? event).bind Extended.rank?

/-- The places of the objectives that are numbers, in the order of the events. -/
noncomputable def places (events : List ε) : List EReal := events.filterMap place?

/-- The least of some places, infinite if there are none. -/
noncomputable def least (history : List EReal) : EReal := sInf {o | o ∈ history}

/-- An objective fails after others when it is not below the least of them by more than the
tolerance. -/
def Fails (tolerance : ℝ) (earlier : List EReal) (o : EReal) : Prop :=
  ¬o < least earlier - tolerance

/-- There are as many objectives as patience allows to fail, and the last that many fail. -/
def RunsOut (patience : ℕ) (tolerance : ℝ) (history : List EReal) : Prop :=
  patience ≤ history.length ∧
    ∀ (i : ℕ) (hi : i < history.length), history.length ≤ i + patience →
      Fails tolerance (history.take i) history[i]

lemma places_append (events : List ε) (event : ε) :
    places (events ++ [event]) = places events ++ (place? event).toList := by
  rw [places, List.filterMap_append]
  cases h : place? event <;> simp [places, h]

end Histories

/-! ## One objective more -/

section Append

variable {patience : ℕ} {tolerance : ℝ} {history : List EReal} {o : EReal}

@[simp] lemma least_nil : least [] = ⊤ := by simp [least]

@[simp] lemma least_append (history : List EReal) (o : EReal) :
    least (history ++ [o]) = min (least history) o := by
  have hsplit : {p | p ∈ history ++ [o]} = {p | p ∈ history} ∪ {o} := by
    ext p
    simp [or_comm]
  rw [least, hsplit, sInf_union, sInf_singleton, least]

@[simp] lemma runsOut_zero : RunsOut 0 tolerance history :=
  ⟨Nat.zero_le _, fun _ hi hlast => absurd hi (not_lt.2 hlast)⟩

/-- Patience for one failure more runs out with one failure more. -/
lemma runsOut_append : RunsOut (patience + 1) tolerance (history ++ [o]) ↔
    Fails tolerance history o ∧ RunsOut patience tolerance history := by
  have hlast (h : history.length < (history ++ [o]).length) :
      Fails tolerance ((history ++ [o]).take history.length) (history ++ [o])[history.length] ↔
        Fails tolerance history o := by simp
  have hearlier {i : ℕ} (hi : i < history.length) (h : i < (history ++ [o]).length) :
      Fails tolerance ((history ++ [o]).take i) (history ++ [o])[i] ↔
        Fails tolerance (history.take i) history[i] := by
    rw [List.getElem_append_left hi, List.take_append_of_le_length hi.le]
  simp only [RunsOut, List.length_append, List.length_singleton, Nat.add_le_add_iff_right]
  constructor
  · intro ⟨hlength, hfails⟩
    refine ⟨(hlast _).1 (hfails _ (by omega) (by omega)), hlength, fun i hi hwindow => ?_⟩
    exact (hearlier hi _).1 (hfails i (by omega) (by omega))
  · intro ⟨ho, hlength, hfails⟩
    refine ⟨hlength, fun i hi hwindow => ?_⟩
    by_cases hlt : i < history.length
    · exact (hearlier hlt _).2 (hfails i hlt (by omega))
    · obtain rfl : i = history.length := by omega
      exact (hlast _).2 ho

/-- The first objective does not fail unless it is infinite, and so patience outlasts as many
objectives as it allows to fail. -/
lemma RunsOut.lt_length (h : RunsOut patience tolerance history) (hpatience : 1 ≤ patience)
    (hfinite : ⊤ ∉ history) : patience < history.length := by
  by_contra hshort
  have hfirst : 0 < history.length := hpatience.trans h.1
  refine h.2 0 hfirst (by omega) ?_
  rw [List.take_zero, least_nil, EReal.top_sub_coe]
  exact lt_top_iff_ne_top.2 fun htop => hfinite (htop ▸ List.getElem_mem hfirst)

end Append

/-! ## What a state says about its history -/

/-- The state knows the least place of a history, and for which patience it would have run out. -/
structure Remembers (stall : Stall Extended) (patience : ℕ) (tolerance : ℝ)
    (history : List EReal) : Prop where
  /-- The patience does not change. -/
  patience_eq : stall.patience = patience
  /-- The tolerance does not change. -/
  tolerance_eq : stall.tolerance = .finite tolerance
  /-- The best objective is a number. -/
  isNaN_best : Scalar.isNaN stall.best = false
  /-- The best objective has the least place. -/
  rank_best : stall.best.rank = least history
  /-- The count is the longest patience that would have run out. -/
  le_stalled_iff : ∀ n, n ≤ stall.stalled ↔ RunsOut n tolerance history

variable {ε α : Type} [HasObjective ε Extended] {stall other : Stall Extended} {patience : ℕ}
  {tolerance : ℝ} {history : List EReal}

lemma remembers_fresh (patience : ℕ) (tolerance : ℝ) :
    (fresh patience (Extended.finite tolerance)).Remembers patience tolerance [] where
  patience_eq := rfl
  tolerance_eq := rfl
  isNaN_best := Extended.isNaN_infinity
  rank_best := Extended.rank_infinity.trans least_nil.symm
  le_stalled_iff _ := ⟨fun hn => Nat.le_zero.1 hn ▸ runsOut_zero, fun h => h.1⟩

/-- An event without an objective that is a number is passed over, and any other one updates the
state. -/
lemma observe_cases [CanStopEarly α] (stall : Stall Extended) (event : ε) :
    (place? event = none ∧ (observer (α := α)).observe stall event = (none, stall)) ∨
      ∃ v, Scalar.isNaN v = false ∧ place? event = some v.rank ∧
        (observer (α := α)).observe stall event =
          (if (stall.update v).isOver then some CanStopEarly.stopEarly else none,
            stall.update v) := by
  simp only [observer, place?, see]
  cases HasObjective.objective? event with
  | none => simp
  | some v =>
    cases hv : Scalar.isNaN v with
    | true => simp [Extended.rank?, hv]
    | false => exact .inr ⟨v, hv, by simp [Extended.rank?, hv]⟩

namespace Remembers

/-- A history leaves one state. -/
lemma unique (h : stall.Remembers patience tolerance history)
    (h' : other.Remembers patience tolerance history) : stall = other := by
  have hbest : stall.best = other.best :=
    Extended.eq_of_rank_eq h.isNaN_best h'.isNaN_best (h.rank_best.trans h'.rank_best.symm)
  have hstalled : stall.stalled = other.stalled :=
    eq_of_forall_le_iff fun n => (h.le_stalled_iff n).trans (h'.le_stalled_iff n).symm
  cases stall
  cases other
  rw [Stall.mk.injEq]
  exact ⟨h.patience_eq.trans h'.patience_eq.symm, h.tolerance_eq.trans h'.tolerance_eq.symm,
    hbest, hstalled⟩

/-- Patience has run out when the count says so. -/
lemma isOver_iff (h : stall.Remembers patience tolerance history) :
    stall.isOver = true ↔ RunsOut patience tolerance history := by
  rw [isOver, decide_eq_true_iff, h.patience_eq, h.le_stalled_iff]

/-- An objective that is a number is added to the history. -/
lemma update (h : stall.Remembers patience tolerance history) {value : Extended}
    (hvalue : Scalar.isNaN value = false) :
    (stall.update value).Remembers patience tolerance (history ++ [value.rank]) where
  patience_eq := h.patience_eq
  tolerance_eq := h.tolerance_eq
  isNaN_best := by
    simp only [Stall.update, Scalar.minNum]
    split_ifs
    · exact hvalue
    · exact hvalue
    · exact h.isNaN_best
  rank_best := by
    rw [least_append, ← h.rank_best, ← Extended.rank_minNum h.isNaN_best hvalue]
    rfl
  le_stalled_iff n := by
    have hfails : ¬value < stall.best - stall.tolerance ↔ Fails tolerance history value.rank := by
      rw [Fails, h.tolerance_eq, Extended.lt_sub_finite_iff hvalue h.isNaN_best, h.rank_best]
    cases n with
    | zero => simp
    | succ n =>
      -- an improvement sets the count to zero, as no window that ends with it can fail
      rw [runsOut_append, ← h.le_stalled_iff, ← hfails]
      simp only [Stall.update]
      split_ifs with hlt <;> simp [hlt]

/-- An event adds its objective to the history, if that is a number. -/
lemma observe [CanStopEarly α] (h : stall.Remembers patience tolerance history) (event : ε) :
    ((observer (α := α)).observe stall event).2.Remembers patience tolerance
      (history ++ (place? event).toList) := by
  rcases observe_cases (α := α) stall event with ⟨hplace, hobserve⟩ | ⟨v, hv, hplace, hobserve⟩
  · simpa [hplace, hobserve] using h
  · simpa [hplace, hobserve] using h.update hv

open Classical in
/-- An event is answered when patience runs out with its objective. -/
lemma answer [CanStopEarly α] (h : stall.Remembers patience tolerance history) (event : ε) :
    ((observer (α := α)).observe stall event).1 =
      if (place? event).isSome ∧ RunsOut patience tolerance (history ++ (place? event).toList)
      then some CanStopEarly.stopEarly else none := by
  rcases observe_cases (α := α) stall event with ⟨hplace, hobserve⟩ | ⟨v, hv, hplace, hobserve⟩
  · simp [hplace, hobserve]
  · simp [hplace, hobserve, (h.update hv).isOver_iff]

end Remembers

/-- Whatever the events were, the state remembers those of their objectives that are numbers. -/
lemma remembers_after [CanStopEarly α] (patience : ℕ) (tolerance : ℝ) (events : List ε) :
    ((observer (α := α)).after (fresh patience (Extended.finite tolerance)) events).Remembers
      patience tolerance (places events) := by
  -- from the end, where the event is that was observed last
  induction events using List.reverseRecOn with
  | nil => exact remembers_fresh patience tolerance
  | append_singleton events event ih =>
    rw [Observer.after_append, places_append]
    exact ih.observe event

/-! ## Events of a run -/

@[simp] lemma place?_dualsResolved (estimate : DualEstimate Extended) :
    place? (Event.dualsResolved estimate) = none := rfl

@[simp] lemma place?_iteration (number : ℕ) (x hidden : Vec Extended)
    (objective step stationarity : Extended) :
    place? (Event.iteration number x hidden objective step stationarity) = objective.rank? := rfl

/-- What is told about the duals leaves no place in the history. -/
lemma places_filter (events : List (Event Extended)) :
    places (events.filter fun event => event.number?.isSome) = places events := by
  rw [places, List.filterMap_filter]
  refine List.filterMap_congr fun event _ => ?_
  cases event <;> simp [Event.number?]

lemma length_places_le (events : List (Event Extended)) :
    (places events).length ≤ events.countP fun event => event.number?.isSome := by
  rw [← places_filter, List.countP_eq_length_filter]
  exact List.length_filterMap_le _ _

lemma top_notMem_places {events : List ε}
    (hfinite : ∀ event ∈ events, ∀ o, HasObjective.objective? event = some o →
      Scalar.isFinite o = true) : ⊤ ∉ places events := by
  intro htop
  obtain ⟨event, hevent, hplace⟩ := List.mem_filterMap.1 htop
  obtain ⟨o, ho, hrank⟩ := Option.bind_eq_some_iff.1 hplace
  have ho' := hfinite event hevent o ho
  rcases o with _ | ⟨_ | _⟩ | a <;> simp_all [Extended.rank?, Extended.rank, Scalar.isFinite]

open Classical in
/-- What a stall observer does, in terms of the objectives it was shown.  Only those that are
numbers matter; the best one is the least of them; and an event is answered exactly when its
objective is a number with which patience runs out.  In a run what is told about the duals changes
nothing, and as long as the objectives are finite no answer comes before there were more steps than
patience allows to fail. -/
theorem answers_of_history [CanStopEarly α] (patience : ℕ) (tolerance : ℝ) :
    let start : Stall Extended := fresh patience (Extended.finite tolerance)
    (let watch : Observer (Stall Extended) ε α := observer
      ∀ events,
        (∀ others, places others = places events →
          watch.after start others = watch.after start events) ∧
        Scalar.isNaN (watch.after start events).best = false ∧
        (watch.after start events).best.rank = least (places events) ∧
        ∀ event, (watch.observe (watch.after start events) event).1 =
          if (place? event).isSome ∧ RunsOut patience tolerance (places (events ++ [event]))
          then some CanStopEarly.stopEarly else none) ∧
    (let watch : Observer (Stall Extended) (Event Extended) α := observer
      ∀ events,
        watch.after start (events.filter fun event => event.number?.isSome) =
          watch.after start events ∧
        (∀ estimate, watch.observe (watch.after start events) (.dualsResolved estimate) =
          (none, watch.after start events)) ∧
        (1 ≤ patience → ∀ event,
          (∀ e ∈ events ++ [event], ∀ o, e.objective? = some o → Scalar.isFinite o = true) →
          (watch.observe (watch.after start events) event).1 = some CanStopEarly.stopEarly →
          patience + 1 ≤ (events ++ [event]).countP fun e => e.number?.isSome)) := by
  refine ⟨fun events => ?_, fun events => ⟨?_, ?_, ?_⟩⟩
  · have hstate := remembers_after (α := α) patience tolerance events
    refine ⟨fun others hplaces => ?_, hstate.isNaN_best, hstate.rank_best, fun event => ?_⟩
    · have hothers := remembers_after (α := α) patience tolerance others
      exact (hplaces ▸ hothers).unique hstate
    · rw [hstate.answer, places_append]
  · have hfilter := remembers_after (α := α) patience tolerance
      (events.filter fun event => event.number?.isSome)
    rw [places_filter] at hfilter
    exact hfilter.unique (remembers_after patience tolerance events)
  · exact fun estimate => rfl
  · intro hpatience event hfinite hstop
    rw [(remembers_after patience tolerance events).answer, ← places_append] at hstop
    have hover : RunsOut patience tolerance (places (events ++ [event])) := by
      by_contra hover
      simp [hover] at hstop
    exact (hover.lt_length hpatience (top_notMem_places hfinite)).trans_le (length_places_le _)

/-- With a tolerance of one, a second step that gains just one is a failure, and the end of a run
that has patience for one failure only.  Neither the duals told before nor a step whose objective is
not a number would make a difference. -/
theorem answers_of_history_slow :
    let step (number : ℕ) (objective : Extended) : Event Extended :=
      .iteration number [] [] objective (.finite 1) (.finite 1)
    let events : List (Event Extended) :=
      [.dualsResolved ⟨⟨none, some [.finite 0]⟩, .supplied⟩, step 1 (.finite 1)]
    let watch : Observer (Stall Extended) (Event Extended) Action := observer
    let start : Stall Extended := fresh 1 (.finite 1)
    watch.after start [step 1 (.finite 1), step 2 .nan] = watch.after start events ∧
      (watch.observe (watch.after start events) (step 2 (.finite 0))).1 = some .stopEarly ∧
      1 + 1 ≤ (events ++ [step 2 (.finite 0)]).countP fun e => e.number?.isSome := by
  intro step events watch start
  have hplaces : places (events ++ [step 2 (.finite 0)]) = [1] ++ [0] := by
    simp [places, List.filterMap_cons, events, step]
  have hsame : places [step 1 (.finite 1), step 2 .nan] = places events := by
    simp [places, List.filterMap_cons, events, step]
  have hfails : Fails 1 [1] 0 := by
    simp [Fails, least, ← EReal.coe_one]
  obtain ⟨hall, hrun⟩ := answers_of_history (ε := Event Extended) (α := Action) 1 1
  have hstop : (watch.observe (watch.after start events) (step 2 (.finite 0))).1 =
      some .stopEarly := by
    rw [(hall events).2.2.2 (step 2 (.finite 0)), hplaces]
    exact if_pos ⟨by simp [step], runsOut_append.2 ⟨hfails, runsOut_zero⟩⟩
  refine ⟨(hall events).1 _ hsame, hstop, (hrun events).2.2 le_rfl (step 2 (.finite 0)) ?_ hstop⟩
  simp [events, step, Event.objective?]

end Stall

end HopfieldDescent
