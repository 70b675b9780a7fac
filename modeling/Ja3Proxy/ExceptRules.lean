import Mathlib.Logic.Basic

/-! Rules for fallible code written in `Except`.
A computation that succeeded is taken apart by `bind_ok`, an early return by `rejectIf_ok`;
two computations are compared step by step by `Related.bind`. -/
namespace ExceptRules

variable {ε α β : Type*}

/-- `if condition { return Err(error) }` -/
def rejectIf (condition : Bool) (error : ε) : Except ε Unit :=
  if condition then .error error else .ok ()

@[simp] theorem bind_ok {x : Except ε α} {f : α → Except ε β} {b : β} :
    x.bind f = .ok b ↔ ∃ a, x = .ok a ∧ f a = .ok b := by
  cases x <;> simp [Except.bind]

@[simp] theorem rejectIf_ok {c : Bool} {e : ε} {u : Unit} :
    rejectIf c e = .ok u ↔ c = false := by
  cases c <;> simp [rejectIf]

def FailsWith (P : ε → Prop) (x : Except ε α) : Prop := ∀ e, x = .error e → P e

variable {P : ε → Prop} {x : Except ε α} {f : α → Except ε β}

theorem FailsWith.ok (a : α) : FailsWith P (.ok a : Except ε α) := by
  intro e h
  cases h

theorem FailsWith.error {e : ε} (h : P e) : FailsWith P (.error e : Except ε α) := by
  intro e' h'
  cases h'
  exact h

theorem FailsWith.rejected {c : Bool} {e : ε} (h : c = true → P e) :
    FailsWith P (rejectIf c e) := by
  cases c with
  | false => exact FailsWith.ok ()
  | true => exact FailsWith.error (h rfl)

theorem FailsWith.rejectIf {c : Bool} {e : ε} (h : P e) : FailsWith P (rejectIf c e) :=
  FailsWith.rejected fun _ => h

/-- What comes next may rely on the value so far. -/
theorem FailsWith.step (hx : FailsWith P x) (hf : ∀ a, x = .ok a → FailsWith P (f a)) :
    FailsWith P (x.bind f) := by
  intro e h
  cases x with
  | error e' =>
    cases h
    exact hx e rfl
  | ok a => exact hf a rfl e h

theorem FailsWith.bind (hx : FailsWith P x) (hf : ∀ a, FailsWith P (f a)) :
    FailsWith P (x.bind f) := hx.step fun a _ => hf a

theorem FailsWith.mono {Q : ε → Prop} (hx : FailsWith P x) (h : ∀ e, P e → Q e) :
    FailsWith Q x := fun e he => h e (hx e he)

inductive Related {α' : Type*} (R : α → α' → Prop) : Except ε α → Except ε α' → Prop where
  | ok {a a'} (h : R a a') : Related R (.ok a) (.ok a')
  | error (e) : Related R (.error e) (.error e)

theorem Related.refl (x : Except ε α) : Related Eq x x := by
  cases x with
  | error e => exact .error e
  | ok a => exact .ok rfl

theorem Related.bind {α' β' : Type*} {R : α → α' → Prop} {S : β → β' → Prop}
    {x : Except ε α} {x' : Except ε α'} {f : α → Except ε β} {f' : α' → Except ε β'}
    (h : Related R x x') (hf : ∀ a a', R a a' → Related S (f a) (f' a')) :
    Related S (x.bind f) (x'.bind f') := by
  cases h with
  | ok h => exact hf _ _ h
  | error e => exact .error e

theorem mapM_mem {as : List α} {bs : List β} {f : α → Except ε β} (h : as.mapM f = .ok bs) :
    bs.length = as.length ∧ ∀ b ∈ bs, ∃ a ∈ as, f a = .ok b := by
  induction as generalizing bs with
  | nil =>
    cases h
    simp
  | cons a rest ih =>
    rw [List.mapM_cons] at h
    obtain ⟨b, ha, h⟩ := bind_ok.mp h
    obtain ⟨others, hrest, h⟩ := bind_ok.mp h
    cases h
    obtain ⟨hlength, hmem⟩ := ih hrest
    refine ⟨by simp [hlength], ?_⟩
    intro c hc
    rcases List.mem_cons.mp hc with rfl | hc
    · exact ⟨a, List.mem_cons_self, ha⟩
    · obtain ⟨a', ha', hf⟩ := hmem c hc
      exact ⟨a', List.mem_cons_of_mem a ha', hf⟩

theorem mapM_defined {as : List α} {bs : List β} {f : α → Except ε β} (h : as.mapM f = .ok bs) :
    ∀ a ∈ as, ∃ b, f a = .ok b := by
  induction as generalizing bs with
  | nil => simp
  | cons a rest ih =>
    rw [List.mapM_cons] at h
    obtain ⟨b, ha, h⟩ := bind_ok.mp h
    obtain ⟨others, hrest, -⟩ := bind_ok.mp h
    rw [List.forall_mem_cons]
    exact ⟨⟨b, ha⟩, ih hrest⟩

/-- A list that was written out is read back whole, or fails at an entry that is not good. -/
theorem mapM_written {as : List α} {write : α → β} {read : β → Except ε α} {good : α → Bool} {e : ε}
    (h : ∀ a ∈ as, read (write a) = if good a then .ok a else .error e) :
    (as.map write).mapM read = if as.all good then .ok as else .error e := by
  induction as with
  | nil => rfl
  | cons a rest ih =>
    rw [List.forall_mem_cons] at h
    rw [List.map_cons, List.mapM_cons, h.1, ih h.2]
    by_cases ha : good a = true <;> by_cases hrest : rest.all good = true <;>
      simp [ha, hrest, bind, Except.bind, pure, Except.pure]

end ExceptRules
