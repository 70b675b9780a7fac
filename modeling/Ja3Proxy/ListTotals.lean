import Mathlib.Data.List.Basic

/-! Sums of a measure over the entries of a list, under replacement of one entry.
Nothing here depends on the modelled program. -/
namespace ListTotals

variable {α : Type*} (f : α → ℕ)

def total : List α → ℕ
  | [] => 0
  | a :: l => f a + total l

theorem total_append (l : List α) (a : α) : total f (l ++ [a]) = total f l + f a := by
  induction l with
  | nil => simp [total]
  | cons b l ih =>
    rw [List.cons_append, total, total, ih]
    omega

theorem total_set {l : List α} {i : ℕ} {a b : α} (h : l[i]? = some a) :
    total f (l.set i b) + f a = total f l + f b := by
  induction l generalizing i with
  | nil => simp at h
  | cons c l ih =>
    cases i with
    | zero =>
      cases h
      simp only [List.set_cons_zero, total]
      omega
    | succ i =>
      have := ih h
      simp only [List.set_cons_succ, total]
      omega

theorem total_eq_zero {l : List α} (h : ∀ a ∈ l, f a = 0) : total f l = 0 := by
  induction l with
  | nil => rfl
  | cons a l ih => rw [total, h a (by simp), ih fun b hb => h b (by simp [hb])]

/-- Replacing one entry of a list leaves the others. -/
theorem getElem?_set_cases {l : List α} {i j : ℕ} {a b : α} (h : (l.set i a)[j]? = some b) :
    i = j ∧ b = a ∨ i ≠ j ∧ l[j]? = some b := by
  rw [List.getElem?_set] at h
  split at h
  · next heq =>
    split at h
    · exact .inl ⟨heq, (Option.some.inj h).symm⟩
    · cases h
  · next hne => exact .inr ⟨hne, h⟩

/-- The last entry of an extended list is the new one. -/
theorem getElem?_append_cases {l : List α} {i : ℕ} {a b : α} (h : (l ++ [a])[i]? = some b) :
    l[i]? = some b ∨ i = l.length ∧ b = a := by
  rw [List.getElem?_append] at h
  split at h
  · exact .inl h
  · next hlt =>
    right
    obtain ⟨hi, hb⟩ := List.getElem?_eq_some_iff.mp h
    rw [List.length_singleton] at hi
    exact ⟨by omega, (List.mem_singleton.mp (List.mem_of_getElem? h))⟩

end ListTotals
