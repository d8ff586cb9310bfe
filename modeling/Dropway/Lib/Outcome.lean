import Mathlib.Tactic.Common

/-! Fallible code as `Except`: the checks it is made of, and how a success is
taken apart. -/

namespace Dropway.Lib.Outcome

variable {ε α β : Type}

/-- The value, or an error where there is none. -/
def orFail (value : Option α) (error : ε) : Except ε α :=
  match value with
  | some value => .ok value
  | none => .error error

def require (condition : Prop) [Decidable condition] (error : ε) : Except ε Unit :=
  if condition then .ok () else .error error

@[simp] theorem orFail_ok {value : Option α} {error : ε} {result : α} :
    orFail value error = .ok result ↔ value = some result := by
  cases value <;> simp [orFail]

@[simp] theorem require_ok {condition : Prop} [Decidable condition] {error : ε} {result : Unit} :
    require condition error = .ok result ↔ condition := by
  by_cases holds : condition <;> simp [require, holds]

@[simp] theorem mapError_ok {δ : Type} {change : ε → δ} {outcome : Except ε α} {result : α} :
    outcome.mapError change = .ok result ↔ outcome = .ok result := by
  cases outcome <;> simp [Except.mapError]

theorem bind_ok {first : Except ε α} {next : α → Except ε β} {result : β} :
    first >>= next = .ok result ↔ ∃ value, first = .ok value ∧ next value = .ok result := by
  cases first with
  | error error => simp [bind, Except.bind]
  | ok value => simp [bind, Except.bind]

@[simp] theorem pure_ok {value result : α} :
    (pure value : Except ε α) = .ok result ↔ value = result := by
  simp [pure, Except.pure]

end Dropway.Lib.Outcome
