import SearchFilter.Failure

namespace SearchFilter

section

variable {α β : Type} {outcome : Except Failure α} {next : α → Except Failure β} {f : α → β}

theorem bind_eq_ok_iff {result : β} :
    outcome >>= next = .ok result ↔ ∃ value, outcome = .ok value ∧ next value = .ok result := by
  cases outcome with
  | error failure => simp [bind, Except.bind]
  | ok value => simp [bind, Except.bind]

/-- Of two outcomes, one behind the other, the first or the second fails. -/
theorem bind_eq_error_iff {failure : Failure} :
    outcome >>= next = .error failure ↔
      outcome = .error failure ∨ ∃ value, outcome = .ok value ∧ next value = .error failure := by
  cases outcome with
  | error other => simp [bind, Except.bind]
  | ok value => simp [bind, Except.bind]

theorem map_eq_ok_iff {result : β} :
    outcome.map f = .ok result ↔ ∃ value, outcome = .ok value ∧ f value = result := by
  cases outcome with
  | error failure => simp [Except.map]
  | ok value => simp [Except.map]

theorem map_eq_error_iff {failure : Failure} :
    outcome.map f = .error failure ↔ outcome = .error failure := by
  cases outcome with
  | error other => simp [Except.map]
  | ok value => simp [Except.map]

theorem pure_eq_ok_iff {value result : α} :
    (pure value : Except Failure α) = .ok result ↔ value = result := by
  simp [pure, Except.pure]

theorem mapError_bind {change : Failure → Failure} :
    (outcome >>= next).mapError change =
      outcome.mapError change >>= fun value => (next value).mapError change := by
  cases outcome <;> rfl

theorem eq_ok_of_toOption {value : α} (h : outcome.toOption = some value) :
    outcome = .ok value := by
  cases outcome with
  | error failure => cases h
  | ok result => exact congrArg Except.ok (Option.some.inj h)

end

end SearchFilter
