import SyntaxMining.Function.Mining

/-!
# Outcomes of computations that report

The outcome of a computation that succeeds at first is the outcome of what follows. A contained
computation always succeeds.
-/

namespace SyntaxMining

variable {α β : Type}

theorem Mining.outcome_bind {first : Mining α} {value : α} (h : first.outcome = .ok value)
    (next : α → Mining β) : (first >>= next).outcome = (next value).outcome := by
  obtain ⟨outcome, reports⟩ := first
  cases h
  rfl

theorem Mining.outcome_ofExcept (result : Except Failure α) :
    (Mining.ofExcept result).outcome = result := by
  cases result <;> rfl

theorem Task.exists_outcome_contain (task : Task) (collect : Mining (Option α)) :
    ∃ value, (task.contain collect).outcome = .ok value := by
  unfold Task.contain
  cases collect.outcome with
  | ok value => exact ⟨value, rfl⟩
  | error failure => exact ⟨none, rfl⟩

end SyntaxMining
