import Ja3Proxy.BufferedBodyLoop

/-! What one step of a call of `buffer` does to the call and to the store. -/
namespace BufferedBody

open TransitionRuns TypedArrays

variable {S : ℕ → Prop} {i : ℕ}

def Stage.active : Stage → Bool
  | .reading => true
  | .completing => true
  | _ => false

def Stage.failure : Stage → Option Failure
  | .closing failure => some failure
  | .settling failure => some failure
  | .failed failure => some failure
  | _ => none

structure Call.Sound (S : ℕ → Prop) (h : Heap) (c : Call) : Prop where
  pending : c.stage = .pending → c = .initial
  active : c.stage.active → BufferedBody.Sound S h c.vars c.chunks.flatten
  result : ∀ body, c.stage = .returned body →
    body = c.chunks.flatten ∧ 2 * body.length ≤ c.vars.retained
  failure : c.stage.failure ≠ some .range

structure Stepped (S : ℕ → Prop) (i : ℕ) (c : Call) (s : Store) (c' : Call) (s' : Store) :
    Prop where
  unended : c.stage.ended = false
  frame : Heap.Frame (fun a => c.stage.active ∧ Own S c.vars a) s.heap s'.heap
  sound : c'.Sound S s'.heap
  current : c'.stage.active → (c.stage.active ∧
    c'.vars.current.buffer = c.vars.current.buffer) ∨ S c'.vars.current.buffer ∨
      s.heap.fresh ≤ c'.vars.current.buffer
  views : c'.stage.active → ∀ v ∈ c'.vars.views,
    (c.stage.active ∧ ∃ u ∈ c.vars.views, v.buffer = u.buffer) ∨ S v.buffer ∨
      s.heap.fresh ≤ v.buffer
  granted : c'.stage.ended = false →
    ∃ n, c'.vars.retained = c.vars.retained + n ∧ Granted i n s.budget s'.budget
  released : c'.stage.ended = true →
    c'.vars.retained = c.vars.retained ∧ s'.budget = s.budget.release i c.vars.retained

section Steps

variable {c : Call} {s : Store}

theorem Call.Sound.frame {own : ℕ → Prop} {h h' : Heap} (hc : c.Sound S h)
    (f : Heap.Frame own h h') (hown : c.stage.active → ∀ v ∈ c.vars.views, ¬ own v.buffer) :
    c.Sound S h' where
  pending := hc.pending
  active h := (hc.active h).frame f (hown h)
  result := hc.result
  failure := hc.failure

/-- The call moves on without touching its blocks or the budget. -/
theorem stepped_stage (hc : c.Sound S s.heap) (hended : c.stage.ended = false)
    {stage : Stage} (hended' : stage.ended = false) (hpending : stage ≠ .pending)
    (hactive : stage.active → c.stage.active) (hfailure : stage.failure ≠ some .range) :
    Stepped S i c s { c with stage := stage } s where
  unended := hended
  frame := .refl _ _
  sound :=
    { pending := fun h => absurd h hpending
      active := fun h => hc.active (hactive h)
      result := by
        rintro body rfl
        cases hended'
      failure := hfailure }
  current h := .inl ⟨hactive h, rfl⟩
  views h v hv := .inl ⟨hactive h, v, hv, rfl⟩
  granted _ := ⟨0, rfl, .zero _ _⟩
  released h := by
    rw [hended'] at h
    cases h

theorem stepped_finish {s' : Store} (hended : c.stage.ended = false) {stage : Stage}
    (hended' : stage.ended = true)
    (hframe : Heap.Frame (fun a => c.stage.active ∧ Own S c.vars a) s.heap s'.heap)
    (hbudget : s'.budget = s.budget)
    (hresult : ∀ body, stage = .returned body →
      body = c.chunks.flatten ∧ 2 * body.length ≤ c.vars.retained)
    (hfailure : stage.failure ≠ some .range) :
    Stepped S i c s (c.finish i stage s').1 (c.finish i stage s').2 := by
  have hactive : stage.active = false := by
    cases stage <;> first | rfl | cases hended'
  refine ⟨hended, hframe, ⟨?_, ?_, hresult, hfailure⟩, ?_, ?_, ?_, ?_⟩
  · rintro rfl
    cases hended'
  · intro h
    rw [Call.finish, hactive] at h
    cases h
  · intro h
    rw [Call.finish, hactive] at h
    cases h
  · intro h
    rw [Call.finish, hactive] at h
    cases h
  · intro h
    rw [Call.finish, hended'] at h
    cases h
  · intro _
    exact ⟨rfl, by rw [Call.finish, hbudget]⟩

theorem stepped_open (hc : c.Sound S s.heap) (hstage : c.stage = .pending) :
    Stepped S i c s
      { c with stage := .reading, vars := { c.vars with current := (s.heap.alloc 0).1 } }
      { s with heap := (s.heap.alloc 0).2 } := by
  have hinitial := hc.pending hstage
  subst hinitial
  refine ⟨rfl, .insert _ _ _, ⟨by simp, ?_, by simp, by simp [Stage.failure]⟩, ?_, ?_, ?_,
    by simp [Stage.ended]⟩
  · intro _
    constructor
    case valid =>
      intro v hv
      rw [List.mem_singleton.mp hv]
      exact Heap.valid_alloc 0
    case full => exact fun v hv => absurd hv List.not_mem_nil
    case capacity => exact Nat.zero_le _
    case filled => exact Nat.le_refl _
    case borrowed => exact fun _ => rfl
    case apart => exact fun _ v hv => absurd hv List.not_mem_nil
    case content => rfl
    case size => rfl
    case retained => rfl
  · exact fun _ => .inr (.inr (Nat.le_refl _))
  · intro _ v hv
    rw [List.mem_singleton.mp hv]
    exact .inr (.inr (Nat.le_refl _))
  · exact fun _ => ⟨0, rfl, .zero _ _⟩

/-- A chunk is taken or refused for the budget alone. -/
theorem stepped_take {value : View} (hc : c.Sound S s.heap) (hstage : c.stage = .reading)
    (hS : ∀ a, S a → a < s.heap.fresh) (hvalue : s.heap.Valid value)
    (hstream : S value.buffer) (hlength : value.length ≤ 65536) :
    ∃ r, c.take i value s = some r ∧ Stepped S i c s r.1 r.2 ∧
      r.1.chunks = c.chunks ++ [s.heap.read value] ∧
      (r.1.stage = .reading ∨ r.1.stage = .closing .bufferLimit) := by
  have hsound := hc.active (by rw [hstage]; rfl)
  obtain ⟨failure, b', s', hrun, habsorbed⟩ :=
    absorb_absorbed (i := i) hstream hlength (Nat.le_of_eq (Nat.zero_add _).symm)
      (Nat.zero_le _) hsound hS hvalue
  have hadvance := habsorbed.advance
  have hframe : Heap.Frame (fun a => c.stage.active ∧ Own S c.vars a) s.heap s'.heap := by
    apply (Heap.Frame.refl _ s.heap).trans hadvance.frame
    exact fun a ha => .inl ⟨by rw [hstage]; rfl, ha⟩
  cases failure with
  | none =>
    refine ⟨({ c with vars := b', chunks := c.chunks ++ [s.heap.read value] }, s'),
      by simp only [Call.take, hrun], ?_, rfl, .inl hstage⟩
    refine ⟨by rw [hstage]; rfl, hframe, ⟨?_, ?_, ?_, ?_⟩, ?_, ?_, ?_, ?_⟩
    · intro h
      simp [hstage] at h
    · intro _
      have hgot := habsorbed.sound rfl
      simpa using hgot
    · intro body h
      simp [hstage] at h
    · simp [hstage, Stage.failure]
    · intro _
      exact hadvance.current.imp_left fun h => ⟨by rw [hstage]; rfl, h⟩
    · intro _ v hv
      exact (hadvance.views v hv).imp_left fun h => ⟨by rw [hstage]; rfl, h⟩
    · exact fun _ => hadvance.granted
    · intro h
      simp [hstage, Stage.ended] at h
  | some failure =>
    have hlimit := habsorbed.limit failure rfl
    subst hlimit
    refine ⟨(Call.fail { c with vars := b', chunks := c.chunks ++ [s.heap.read value] }
      .bufferLimit, s'), by simp only [Call.take, hrun], ?_, rfl, .inr rfl⟩
    refine ⟨by rw [hstage]; rfl, hframe, ⟨?_, ?_, ?_, ?_⟩, ?_, ?_, ?_, ?_⟩
    · simp [Call.fail]
    · simp [Call.fail, Stage.active]
    · simp [Call.fail]
    · simp [Call.fail, Stage.failure]
    · simp [Call.fail, Stage.active]
    · simp [Call.fail, Stage.active]
    · exact fun _ => hadvance.granted
    · simp [Call.fail, Stage.ended]

theorem stepped_complete (hc : c.Sound S s.heap) (hstage : c.stage = .completing) :
    Stepped S i c s (c.complete i s).1 (c.complete i s).2 ∧
      (c.complete i s).1.stage = .returned c.chunks.flatten := by
  have hsound := hc.active (by rw [hstage]; rfl)
  obtain ⟨h', hassemble, hframe⟩ := assemble_body hsound
  simp only [Call.complete, hassemble]
  refine ⟨stepped_finish (by rw [hstage]; rfl) rfl ?_ rfl ?_ ?_, rfl⟩
  · apply (Heap.Frame.refl _ s.heap).trans hframe
    exact fun a ha => .inr ha
  · rintro body ⟨⟩
    exact ⟨rfl, hsound.covered⟩
  · simp [Stage.failure]

/-- The `catch` block ends, with the error it works on. -/
theorem stepped_failed {failure : Failure} (hc : c.Sound S s.heap)
    (hended : c.stage.ended = false) (hstage : c.stage.failure = some failure) :
    Stepped S i c s (c.finish i (.failed failure) s).1 (c.finish i (.failed failure) s).2 := by
  apply stepped_finish hended rfl (.refl _ _) rfl
  · simp
  · have := hc.failure
    rw [hstage] at this
    exact this

theorem release_zero (budget : BufferBudget) : budget.release i 0 = budget := by
  simp [BufferBudget.release]

/-- The exchange was never opened: nothing is released and nothing was reserved. -/
theorem stepped_refused (hc : c.Sound S s.heap) (hstage : c.stage = .pending) :
    Stepped S i c s { c with stage := .failed .stream } s := by
  have hinitial := hc.pending hstage
  subst hinitial
  have hstepped : Stepped S i Call.initial s
      (Call.initial.finish i (.failed .stream) s).1
      (Call.initial.finish i (.failed .stream) s).2 := by
    apply stepped_finish rfl rfl (.refl _ _) rfl
    · simp
    · simp [Stage.failure]
  have hstore : (Call.initial.finish i (.failed .stream) s).2 = s := by
    change { s with budget := s.budget.release i 0 } = s
    rw [release_zero]
  rw [hstore] at hstepped
  exact hstepped

theorem next_stepped {a : Act} {r : Call × Store} (hc : c.Sound S s.heap)
    (hS : ∀ a, S a → a < s.heap.fresh)
    (hchunk : ∀ value, a = .chunk value →
      s.heap.Valid value ∧ S value.buffer ∧ value.length ≤ 65536)
    (h : c.next i s a = some r) : Stepped S i c s r.1 r.2 := by
  have hfailure := hc.failure
  cases hstage : c.stage with
  | pending =>
    cases a <;> simp only [Call.next, hstage, reduceCtorEq] at h
    case opened =>
      cases h
      exact stepped_open hc hstage
    case rejected =>
      cases h
      exact stepped_refused hc hstage
  | reading =>
    cases a <;> simp only [Call.next, hstage, reduceCtorEq] at h
    case chunk value =>
      obtain ⟨hvalid, hstream, hlength⟩ := hchunk value rfl
      obtain ⟨r', hr', hstepped, -⟩ :=
        stepped_take (i := i) hc hstage hS hvalid hstream hlength
      cases hr'.symm.trans h
      exact hstepped
    all_goals
      cases h
      apply stepped_stage hc <;> simp [hstage, Stage.ended, Stage.active, Stage.failure]
  | completing =>
    cases a <;> simp only [Call.next, hstage, reduceCtorEq] at h
    case completed ok =>
      cases h
      cases ok with
      | true => exact (stepped_complete hc hstage).1
      | false =>
        apply stepped_stage hc <;> simp [hstage, Stage.ended, Stage.active, Stage.failure]
    case rejected =>
      cases h
      apply stepped_stage hc <;> simp [hstage, Stage.ended, Stage.active, Stage.failure]
  | closing failure =>
    rw [hstage] at hfailure
    cases a <;> simp only [Call.next, hstage, reduceCtorEq] at h
    case closed =>
      cases h
      have hsettling : (Stage.settling failure).failure ≠ some .range := hfailure
      exact stepped_stage hc (by rw [hstage]; rfl) rfl (by simp) (by simp [Stage.active])
        hsettling
    case rejected =>
      cases h
      exact stepped_failed hc (by rw [hstage]; rfl) (by rw [hstage]; rfl)
  | settling failure =>
    cases a <;> simp only [Call.next, hstage, reduceCtorEq] at h
    all_goals
      cases h
      exact stepped_failed hc (by rw [hstage]; rfl) (by rw [hstage]; rfl)
  | returned body => cases a <;> simp [Call.next, hstage] at h
  | failed failure => cases a <;> simp [Call.next, hstage] at h

end Steps

end BufferedBody
