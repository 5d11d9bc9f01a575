import Subdomain.Error

/-!
# Outcomes

How a sequence of fallible steps comes to succeed, and what one that changes a state in place leaves.
-/

namespace Subdomain

variable {ε α β : Type}

theorem ok_bind (value : α) (next : α → Except ε β) :
    ((.ok value : Except ε α) >>= next) = next value := rfl

/-- A sequence succeeds exactly when its first step does and the rest does from there. -/
theorem bind_eq_ok {first : Except ε α} {next : α → Except ε β} {value : β} :
    (first >>= next) = .ok value ↔ ∃ middle, first = .ok middle ∧ next middle = .ok value := by
  cases first with
  | error error => exact ⟨nofun, nofun⟩
  | ok middle =>
      constructor
      · intro done
        exact ⟨middle, rfl, done⟩
      · rintro ⟨_, same, done⟩
        cases same
        exact done

/-- A sequence fails exactly when its first step does, or the rest does from there. -/
theorem bind_eq_error {first : Except ε α} {next : α → Except ε β} {error : ε} :
    (first >>= next) = .error error ↔
      first = .error error ∨ ∃ middle, first = .ok middle ∧ next middle = .error error := by
  cases first with
  | error other =>
      constructor
      · intro failed
        cases failed
        exact .inl rfl
      · rintro (failed | ⟨_, succeeded, _⟩)
        · cases failed
          rfl
        · cases succeeded
  | ok middle =>
      constructor
      · intro failed
        exact .inr ⟨middle, rfl, failed⟩
      · rintro (failed | ⟨_, succeeded, failed⟩)
        · cases failed
        · cases succeeded
          exact failed

/-- A refusal in front of a sequence has not happened if the whole succeeds. -/
theorem refuse_eq_ok {refused : Prop} [Decidable refused] {error : ε} {next : Unit → Except ε β}
    {value : β} :
    (if refused then throw error >>= next else next ()) = .ok value ↔
      ¬ refused ∧ next () = .ok value := by
  by_cases condition : refused
  · rw [if_pos condition]
    exact ⟨nofun, fun ⟨absurdity, _⟩ => absurd condition absurdity⟩
  · rw [if_neg condition]
    exact ⟨fun done => ⟨condition, done⟩, And.right⟩

/-- Steps that all succeed give all their values. -/
theorem mapM_eq_ok_map {step : α → Except ε β} {image : α → β} {values : List α}
    (each : ∀ value ∈ values, step value = .ok (image value)) :
    values.mapM step = .ok (values.map image) := by
  induction values with
  | nil => rfl
  | cons head rest ih =>
      rw [List.mapM_cons, each head List.mem_cons_self,
        ih fun value member => each value (List.mem_cons_of_mem _ member)]
      rfl

/-- Some values come of all steps exactly when each of them succeeds. -/
theorem mapM_succeeds_iff {step : α → Except ε β} {values : List α} :
    (∃ results, values.mapM step = .ok results) ↔
      ∀ value ∈ values, ∃ result, step value = .ok result := by
  induction values with
  | nil => simp [pure, Except.pure]
  | cons head rest ih =>
      rw [List.forall_mem_cons, ← ih]
      simp only [List.mapM_cons, bind_eq_ok]
      constructor
      · rintro ⟨_, result, first, results, others, _⟩
        exact ⟨⟨result, first⟩, results, others⟩
      · rintro ⟨⟨result, first⟩, results, others⟩
        exact ⟨result :: results, result, first, results, others, rfl⟩

/-- Where not all steps succeed, the error of all is the error of the first one that fails. -/
theorem first_of_mapM_eq_error {step : α → Except ε β} {values : List α} {error : ε}
    (failed : values.mapM step = .error error) :
    ∃ front value back, values = front ++ value :: back ∧
      (∀ earlier ∈ front, ∃ result, step earlier = .ok result) ∧ step value = .error error := by
  induction values with
  | nil => cases failed
  | cons head rest ih =>
      rw [List.mapM_cons] at failed
      cases first : step head with
      | error other =>
          rw [first] at failed
          cases failed
          exact ⟨[], head, rest, rfl, nofun, first⟩
      | ok result =>
          rw [first] at failed
          cases others : rest.mapM step with
          | error other =>
              rw [others] at failed
              cases failed
              rcases ih others with ⟨front, value, back, split, before, atValue⟩
              refine ⟨head :: front, value, back, by rw [split]; rfl, ?_, atValue⟩
              intro earlier member
              cases List.mem_cons.1 member with
              | inl same => exact ⟨result, same ▸ first⟩
              | inr member => exact before earlier member
          | ok results =>
              rw [others] at failed
              cases failed

theorem exists_of_mapM_eq_error {step : α → Except ε β} {values : List α} {error : ε}
    (failed : values.mapM step = .error error) : ∃ value ∈ values, step value = .error error := by
  rcases first_of_mapM_eq_error failed with ⟨front, value, back, rfl, _, atValue⟩
  exact ⟨value, by simp, atValue⟩

/-- The values of steps that all succeed are the values of the steps. -/
theorem mem_of_mapM_eq_ok {step : α → Except ε β} {values : List α} {results : List β}
    (done : values.mapM step = .ok results) {result : β} :
    result ∈ results ↔ ∃ value ∈ values, step value = .ok result := by
  induction values generalizing results with
  | nil =>
      cases done
      simp
  | cons head rest ih =>
      simp only [List.mapM_cons, bind_eq_ok] at done
      rcases done with ⟨first, atHead, others, atRest, done⟩
      cases done
      simp [ih atRest, atHead, eq_comm]

/-! ## Steps in place -/

section InPlace

variable {σ : Type}

theorem run_get_bind (state : σ) (next : σ → ExceptT ε (StateM σ) α) :
    (get >>= next).run.run state = (next state).run.run state := rfl

/-- A program stops at a step that fails, with the state as it stands there. -/
theorem run_outcome_bind (outcome : Except ε α) (next : α → ExceptT ε (StateM σ) β) (state : σ) :
    ((outcome : ExceptT ε (StateM σ) α) >>= next).run.run state =
      match outcome with
      | .ok value => (next value).run.run state
      | .error error => (.error error, state) := by
  cases outcome with
  | error error => rfl
  | ok value => rfl

end InPlace

end Subdomain
