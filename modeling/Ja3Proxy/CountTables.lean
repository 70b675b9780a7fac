import Mathlib.Data.Int.Notation
import Mathlib.Data.Nat.Notation
import Mathlib.Logic.Function.Basic

/-! Tables that count keys and have no entry for a key that does not occur.
Nothing here depends on the modelled program. -/
namespace CountTables

variable {κ : Type*} [DecidableEq κ]

/-- `Map<κ, number>` -/
abbrev Table (κ : Type*) := κ → Option ℤ

def Table.empty : Table κ := fun _ => none

/-- `m.set(k, (m.get(k) ?? 0) + 1)` -/
def increment (m : Table κ) (k : κ) : Table κ := Function.update m k (some ((m k).getD 0 + 1))

/-- `const remaining = m.get(k)! - 1`, which deletes the entry at zero. A missing key leaves a
negative entry here. -/
def decrement (m : Table κ) (k : κ) : Table κ :=
  if (m k).getD 0 - 1 = 0 then Function.update m k none
  else Function.update m k (some ((m k).getD 0 - 1))

def Counts (m : Table κ) (f : κ → ℕ) : Prop :=
  ∀ k, m k = if f k = 0 then none else some (f k : ℤ)

variable {m : Table κ} {f g : κ → ℕ} {k : κ}

omit [DecidableEq κ] in
theorem Counts.getD (h : Counts m f) (k : κ) : (m k).getD 0 = (f k : ℤ) := by
  rw [h k]
  split
  · rename_i hz
    simp [hz]
  · rfl

omit [DecidableEq κ] in
theorem Counts.isSome_iff (h : Counts m f) (k : κ) : (m k).isSome = true ↔ 0 < f k := by
  rw [h k]
  split
  · rename_i hz
    simp [hz]
  · simp only [Option.isSome_some, true_iff]
    omega

omit [DecidableEq κ] in
theorem counts_empty : Counts (Table.empty : Table κ) fun _ => 0 := by
  intro k
  rfl

theorem Counts.increment (h : Counts m f) (hk : g k = f k + 1) (hne : ∀ j, j ≠ k → g j = f j) :
    Counts (increment m k) g := by
  intro j
  by_cases hj : j = k
  · subst hj
    rw [CountTables.increment, Function.update_self, h.getD, if_neg (by omega), hk]
    rfl
  · rw [CountTables.increment, Function.update_of_ne hj, hne j hj]
    exact h j

theorem Counts.decrement (h : Counts m f) (hk : g k + 1 = f k) (hne : ∀ j, j ≠ k → g j = f j) :
    Counts (decrement m k) g := by
  intro j
  rw [CountTables.decrement, h.getD]
  by_cases hj : j = k
  · subst hj
    split
    · rw [Function.update_self, if_pos (by omega)]
    · rw [Function.update_self, if_neg (by omega)]
      congr 1
      omega
  · split
    · rw [Function.update_of_ne hj, h j, hne j hj]
    · rw [Function.update_of_ne hj, h j, hne j hj]

end CountTables
