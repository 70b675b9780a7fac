import Mathlib.Data.List.Basic

/-! Partial labelled machines and their finite runs.
A label carries every choice of the environment, so one step is a partial function.
Nothing here depends on the modelled program. -/
namespace TransitionRuns

variable {σ ε : Type*}

/-- `next s e = none` means that the label is not enabled in `s`. -/
structure Machine (σ ε : Type*) where
  initial : σ
  next : σ → ε → Option σ

namespace Machine

variable (M : Machine σ ε)

def run : σ → List ε → Option σ
  | s, [] => some s
  | s, e :: es => (M.next s e).bind fun t => run t es

def Reachable (s : σ) : Prop := ∃ es, M.run M.initial es = some s

def Along (C : σ → ε → σ → Prop) : σ → List ε → Prop
  | _, [] => True
  | s, e :: es => ∀ t, M.next s e = some t → C s e t ∧ Along C t es

instance decidableAlong (C : σ → ε → σ → Prop) [∀ s e t, Decidable (C s e t)] :
    ∀ s es, Decidable (M.Along C s es)
  | _, [] => isTrue trivial
  | s, e :: es =>
    match h : M.next s e with
    | none => isTrue (by simp [Along, h])
    | some t =>
      have := decidableAlong C t es
      decidable_of_iff (C s e t ∧ M.Along C t es) (by simp [Along, h])

@[simp] theorem run_nil (s : σ) : M.run s [] = some s := rfl

theorem run_cons_iff {s u : σ} {e : ε} {es : List ε} :
    M.run s (e :: es) = some u ↔ ∃ t, M.next s e = some t ∧ M.run t es = some u := by
  simp [run, Option.bind_eq_some_iff]

theorem run_append_iff {s u : σ} {es fs : List ε} :
    M.run s (es ++ fs) = some u ↔ ∃ t, M.run s es = some t ∧ M.run t fs = some u := by
  induction es generalizing s with
  | nil => simp
  | cons e es ih =>
    rw [List.cons_append, run_cons_iff]
    constructor
    · rintro ⟨t, ht, hu⟩
      obtain ⟨v, hv, hw⟩ := ih.mp hu
      exact ⟨v, M.run_cons_iff.mpr ⟨t, ht, hv⟩, hw⟩
    · rintro ⟨v, hv, hw⟩
      obtain ⟨t, ht, htv⟩ := M.run_cons_iff.mp hv
      exact ⟨t, ht, ih.mpr ⟨v, htv, hw⟩⟩

variable {M}

theorem run_trans {s t u : σ} {es fs : List ε} (h : M.run s es = some t)
    (k : M.run t fs = some u) : M.run s (es ++ fs) = some u :=
  M.run_append_iff.mpr ⟨t, h, k⟩

theorem Reachable.run {s t : σ} {es : List ε} (h : M.Reachable s) (k : M.run s es = some t) :
    M.Reachable t := by
  obtain ⟨fs, hf⟩ := h
  exact ⟨fs ++ es, run_trans hf k⟩

/-- The run rule: what one step preserves holds at the end of every run. -/
theorem run_preserves {P : σ → Prop}
    (step : ∀ s e t, P s → M.next s e = some t → P t) {s t : σ} {es : List ε}
    (hs : P s) (h : M.run s es = some t) : P t := by
  induction es generalizing s with
  | nil => cases h; exact hs
  | cons e es ih =>
    obtain ⟨u, hu, ht⟩ := M.run_cons_iff.mp h
    exact ih (step s e u hs hu) ht

theorem reachable_preserves {P : σ → Prop} (start : P M.initial)
    (step : ∀ s e t, P s → M.next s e = some t → P t) {s : σ} (h : M.Reachable s) : P s := by
  obtain ⟨es, he⟩ := h
  exact run_preserves step start he

/-- The run rule for runs all of whose steps meet a side condition. -/
theorem run_preserves_along {C : σ → ε → σ → Prop} {P : σ → Prop}
    (step : ∀ s e t, P s → C s e t → M.next s e = some t → P t) {s t : σ} {es : List ε}
    (hs : P s) (hc : M.Along C s es) (h : M.run s es = some t) : P t := by
  induction es generalizing s with
  | nil => cases h; exact hs
  | cons e es ih =>
    obtain ⟨u, hu, ht⟩ := M.run_cons_iff.mp h
    obtain ⟨hcu, hrest⟩ := hc u hu
    exact ih (step s e u hs hcu hu) hrest ht

theorem along_of_mem {C : σ → ε → σ → Prop} {s : σ} {es : List ε}
    (h : ∀ e ∈ es, ∀ t u, C t e u) : M.Along C s es := by
  induction es generalizing s with
  | nil => trivial
  | cons e es ih =>
    intro t _
    exact ⟨h e List.mem_cons_self s t, ih fun f hf => h f (List.mem_cons_of_mem _ hf)⟩

theorem along_append {C : σ → ε → σ → Prop} {s t : σ} {es fs : List ε}
    (h : M.run s es = some t) :
    M.Along C s (es ++ fs) ↔ M.Along C s es ∧ M.Along C t fs := by
  induction es generalizing s with
  | nil => cases h; simp [Along]
  | cons e es ih =>
    obtain ⟨u, hu, ht⟩ := M.run_cons_iff.mp h
    have hone : ∀ v, M.next s e = some v → v = u := by
      intro v hv
      exact Option.some.inj (hv.symm.trans hu)
    constructor
    · intro ha
      obtain ⟨hcu, hrest⟩ := ha u hu
      obtain ⟨hl, hr⟩ := (ih ht).mp hrest
      refine ⟨?_, hr⟩
      intro v hv
      rw [hone v hv]
      exact ⟨hcu, hl⟩
    · rintro ⟨ha, hr⟩ v hv
      rw [hone v hv]
      obtain ⟨hcu, hl⟩ := ha u hu
      exact ⟨hcu, (ih ht).mpr ⟨hl, hr⟩⟩

/-- The rule for deleted steps: a relation that every kept step carries over to the second run
and that no deleted step breaks relates the ends of a run and of its kept part. -/
theorem run_filter {C : σ → ε → σ → Prop} {R : σ → σ → Prop} {keep : ε → Bool}
    (kept : ∀ s t e s', R s t → C s e s' → keep e = true → M.next s e = some s' →
      ∃ t', M.next t e = some t' ∧ R s' t')
    (deleted : ∀ s t e s', R s t → C s e s' → keep e = false → M.next s e = some s' → R s' t)
    {s t u : σ} {es : List ε} (hr : R s t) (hc : M.Along C s es) (h : M.run s es = some u) :
    ∃ v, M.run t (es.filter keep) = some v ∧ R u v := by
  induction es generalizing s t with
  | nil =>
    cases h
    exact ⟨t, rfl, hr⟩
  | cons e es ih =>
    obtain ⟨s', hs', hu⟩ := M.run_cons_iff.mp h
    obtain ⟨hstep, hrest⟩ := hc s' hs'
    cases hkeep : keep e with
    | true =>
      obtain ⟨t', ht', hr'⟩ := kept s t e s' hr hstep hkeep hs'
      obtain ⟨v, hv, huv⟩ := ih hr' hrest hu
      rw [List.filter_cons_of_pos hkeep]
      exact ⟨v, M.run_cons_iff.mpr ⟨t', ht', hv⟩, huv⟩
    | false =>
      have hskip : ¬keep e = true := by simp [hkeep]
      rw [List.filter_cons_of_neg hskip]
      exact ih (deleted s t e s' hr hstep hkeep hs') hrest hu

/-- The rule for a second machine that follows every step by a run of its own, with labels that
all meet `A`. -/
theorem run_simulates {τ φ : Type*} {N : Machine τ φ} {C : σ → ε → σ → Prop} {A : φ → Prop}
    {R : σ → τ → Prop}
    (step : ∀ s t e s', R s t → C s e s' → M.next s e = some s' →
      ∃ fs t', N.run t fs = some t' ∧ (∀ f ∈ fs, A f) ∧ R s' t')
    {s u : σ} {t : τ} {es : List ε} (hr : R s t) (hc : M.Along C s es) (h : M.run s es = some u) :
    ∃ fs v, N.run t fs = some v ∧ (∀ f ∈ fs, A f) ∧ R u v := by
  induction es generalizing s t with
  | nil =>
    cases h
    exact ⟨[], t, rfl, fun f hf => absurd hf List.not_mem_nil, hr⟩
  | cons e es ih =>
    obtain ⟨s', hs', hu⟩ := M.run_cons_iff.mp h
    obtain ⟨hstep, hrest⟩ := hc s' hs'
    obtain ⟨fs, t', ht', hfs, hr'⟩ := step s t e s' hr hstep hs'
    obtain ⟨gs, v, hv, hgs, huv⟩ := ih hr' hrest hu
    refine ⟨fs ++ gs, v, run_trans ht' hv, fun f hf => ?_, huv⟩
    rcases List.mem_append.mp hf with hf | hf
    · exact hfs f hf
    · exact hgs f hf

end Machine

end TransitionRuns
