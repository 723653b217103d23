set_option autoImplicit false

namespace RngLowering

/-- Two steps succeed if the first one does, and the second one after it. -/
theorem bind_eq_ok {ε α β : Type} {first : Except ε α} {next : α → Except ε β} {b : β} :
    (first >>= next) = .ok b ↔ ∃ a, first = .ok a ∧ next a = .ok b := by
  cases first with
  | error reason => simp [bind, Except.bind]
  | ok a => simp [bind, Except.bind]

theorem bind_eq_error {ε α β : Type} {first : Except ε α} {next : α → Except ε β} {reason : ε} :
    (first >>= next) = .error reason ↔
      first = .error reason ∨ ∃ a, first = .ok a ∧ next a = .error reason := by
  cases first with
  | error other => simp [bind, Except.bind]
  | ok a => simp [bind, Except.bind]

theorem map_eq_ok {ε α β : Type} {outcome : Except ε α} {f : α → β} {b : β} :
    outcome.map f = .ok b ↔ ∃ a, outcome = .ok a ∧ f a = b := by
  cases outcome with
  | error reason => simp [Except.map]
  | ok a => simp [Except.map]

theorem ok_bind {ε α β : Type} (a : α) (next : α → Except ε β) :
    (Except.ok a >>= next) = next a := rfl

section

variable {ε σ α β : Type} {first : EStateM ε σ α} {next : α → EStateM ε σ β} {s t : σ}

theorem seq_eq_ok {b : β} :
    (first >>= next) s = .ok b t ↔ ∃ a r, first s = .ok a r ∧ next a r = .ok b t := by
  simp only [Bind.bind, EStateM.bind]
  cases first s with
  | error reason r => simp
  | ok a r => simp [and_assoc]

theorem seq_eq_error {reason : ε} :
    (first >>= next) s = .error reason t ↔
      first s = .error reason t ∨ ∃ a r, first s = .ok a r ∧ next a r = .error reason t := by
  simp only [Bind.bind, EStateM.bind]
  cases first s with
  | error other r => simp
  | ok a r => simp [and_assoc]

theorem bind_of_ok {a : α} (run : first s = .ok a t) : (first >>= next) s = next a t := by
  simp only [Bind.bind, EStateM.bind, run]

theorem bind_of_error {reason : ε} (run : first s = .error reason t) :
    (first >>= next) s = .error reason t := by
  simp only [Bind.bind, EStateM.bind, run]

theorem get_bind (next : σ → EStateM ε σ β) (s : σ) : (get >>= next) s = next s s := rfl

end

theorem exists_eq_ok {ε α : Type} {outcome : Except ε α} (done : outcome.isOk = true) :
    ∃ a, outcome = .ok a := by
  cases outcome with
  | error reason => cases done
  | ok a => exact ⟨a, rfl⟩

/-- What succeeds and passes a test gives something that passes it. -/
theorem exists_of_any {ε α : Type} {outcome : Except ε α} {test : α → Bool}
    (passes : outcome.toOption.any test = true) : ∃ a, outcome = .ok a ∧ test a = true := by
  cases outcome with
  | error reason => cases passes
  | ok a => exact ⟨a, rfl, passes⟩

end RngLowering
