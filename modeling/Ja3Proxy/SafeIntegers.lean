import Mathlib.Data.Int.Notation
import Mathlib.Data.Nat.Notation

/-! The integers that a JavaScript number holds exactly. -/
namespace SafeIntegers

/-- `Number.MAX_SAFE_INTEGER` -/
def maxSafe : ℕ := 9007199254740991

def isSafe (value : ℤ) : Bool := -(maxSafe : ℤ) ≤ value && value ≤ maxSafe

/-- `Number.isSafeInteger(value) && value > 0` -/
def positive (value : ℤ) : Bool := 0 < value && value ≤ maxSafe

def nonnegativeInteger (value : ℤ) : Bool := 0 ≤ value && value ≤ maxSafe

@[simp] theorem positive_iff {value : ℤ} : positive value = true ↔ 0 < value ∧ value ≤ maxSafe := by
  simp only [positive, Bool.and_eq_true, decide_eq_true_eq]

@[simp] theorem nonnegativeInteger_iff {value : ℤ} :
    nonnegativeInteger value = true ↔ 0 ≤ value ∧ value ≤ maxSafe := by
  simp only [nonnegativeInteger, Bool.and_eq_true, decide_eq_true_eq]

end SafeIntegers
