import Mathlib.Algebra.Group.Nat.Defs

/-! Arithmetic of 64-bit unsigned words over `ℕ`. -/
namespace WordArithmetic

def wordMax : ℕ := 2 ^ 64 - 1

def checkedAdd (a b : ℕ) : Option ℕ := if a + b < 2 ^ 64 then some (a + b) else none

def saturatingAdd (a b : ℕ) : ℕ := min (a + b) wordMax

theorem checkedAdd_eq_some {a b c : ℕ} : checkedAdd a b = some c ↔ a + b < 2 ^ 64 ∧ c = a + b := by
  unfold checkedAdd
  split
  · next h => exact ⟨fun e => ⟨h, (Option.some.inj e).symm⟩, fun e => congrArg some e.2.symm⟩
  · next h => exact ⟨fun e => (by cases e), fun e => absurd e.1 h⟩

theorem checkedAdd_eq_none {a b : ℕ} : checkedAdd a b = none ↔ ¬ a + b < 2 ^ 64 := by
  unfold checkedAdd
  split
  · next h => exact ⟨fun e => (by cases e), fun e => absurd h e⟩
  · next h => exact ⟨fun _ => h, fun _ => rfl⟩

theorem saturatingAdd_lt (a b : ℕ) : saturatingAdd a b < 2 ^ 64 :=
  Nat.lt_of_le_of_lt (Nat.min_le_right _ _) (Nat.sub_lt (Nat.two_pow_pos 64) Nat.one_pos)

end WordArithmetic
