import Ja3Proxy.Exchange

/-! The invariant of one exchange: what was called how often, and where the function can be. -/
namespace ExchangeInvariant

open SdkErrors TransitionRuns Exchange

structure Accounted (s : State) : Prop where
  done : s.done = s.finished.toNat
  reservation : ∀ k, s.releaseReservation = some k → k = s.finished.toNat
  release : ∀ k, s.release = some k → k = s.finished.toNat
  observation : ∀ o, s.observation = some o →
    o.finished = s.finished ∧ o.finishCalls = s.finished.toNat
  listening : s.listening = !s.finished
  pending : s.finished = false → s.terminal = [] ∧ s.failure = none
  outcome : s.finished = true → ∃ o, s.terminal = [o] ∧ s.failure = failureOf o
  aborted : ∀ e, s.failure = some e → s.aborted = true

structure Placed (s : State) : Prop where
  success : s.finished = true → s.failure = none → s.stage = .returned
  rejected : ∀ e, s.stage = .rejected e → s.failure = some e
  granted : s.permit = .granted → s.stage = .admitting ∨ s.release.isSome = true
  waiting : s.permit = .pending → s.stage = .admitting
  readable : s.body = .readable → s.stage = .returned
  closing : s.body = .readable → s.finished = true → s.pull = .closing
  pulling : s.stage ≠ .returned → s.pull = .idle
  early : s.aborted = true → s.finished = false → s.stage.early = true

structure Invariant (s : State) : Prop extends Accounted s, Placed s

/-- The account says nothing of the other variables. -/
theorem Accounted.elsewhere {s : State} (h : Accounted s) {stage : Stage} {permit : Permit}
    {upload reader : Option Bool} {requests : ℕ} {body : Body} {pull : Pull}
    {chunks : List (List UInt8)} :
    Accounted { s with
      stage := stage, permit := permit, upload := upload, reader := reader
      requests := requests, body := body, pull := pull, chunks := chunks } :=
  ⟨h.done, h.reservation, h.release, h.observation, h.listening, h.pending, h.outcome, h.aborted⟩

theorem invariant_initial (aborted : Bool) : Invariant (.initial aborted) := by
  constructor
  · constructor <;> simp [State.initial]
  · constructor <;> simp [State.initial, Stage.early]

section Finish

variable {s : State}

theorem finish_of_finished (h : s.finished = true) (o : Except SdkError Diagnostics) :
    s.finish o = s := by
  rw [State.finish, if_pos h]

@[simp] theorem finish_finished (s : State) (o : Except SdkError Diagnostics) :
    (s.finish o).finished = true := by
  rw [State.finish]
  split
  · assumption
  · rfl

@[simp] theorem finish_stage (s : State) (o : Except SdkError Diagnostics) :
    (s.finish o).stage = s.stage := by
  rw [State.finish]
  split <;> rfl

@[simp] theorem finish_pull (s : State) (o : Except SdkError Diagnostics) :
    (s.finish o).pull = s.pull := by
  rw [State.finish]
  split <;> rfl

@[simp] theorem finish_permit (s : State) (o : Except SdkError Diagnostics) :
    (s.finish o).permit = s.permit := by
  rw [State.finish]
  split <;> rfl

@[simp] theorem finish_release_isSome (s : State) (o : Except SdkError Diagnostics) :
    (s.finish o).release.isSome = s.release.isSome := by
  rw [State.finish]
  split
  · rfl
  · simp

theorem observation_finish {o : Observation} (h : o.finished = false ∧ o.finishCalls = 0) :
    o.finish.finished = true ∧ o.finish.finishCalls = 1 := by
  simp [Observation.finish, h.1, h.2]

theorem accounted_finish (h : Accounted s) (o : Except SdkError Diagnostics) :
    Accounted (s.finish o) := by
  cases hf : s.finished with
  | true => rwa [finish_of_finished hf]
  | false =>
    have hterminal := (h.pending hf).1
    simp only [State.finish, hf, Bool.false_eq_true, if_false]
    constructor
    case done => simp [h.done, hf]
    case reservation =>
      intro k hk
      obtain ⟨j, hj, rfl⟩ := Option.map_eq_some_iff.mp hk
      simp [h.reservation j hj, hf]
    case release =>
      intro k hk
      obtain ⟨j, hj, rfl⟩ := Option.map_eq_some_iff.mp hk
      simp [h.release j hj, hf]
    case observation =>
      intro q hq
      obtain ⟨r, hr, rfl⟩ := Option.map_eq_some_iff.mp hq
      have hold := h.observation r hr
      rw [hf] at hold
      exact observation_finish hold
    case listening => rfl
    case pending => simp
    case outcome =>
      intro _
      exact ⟨o, by simp [hterminal], rfl⟩
    case aborted =>
      intro e he
      change failureOf o = some e at he
      simp [he]

theorem body_error_ne (b : Body) : b.error ≠ .readable := by
  cases b <;> simp [Body.error]

theorem placed_finish (h : Invariant s) (o : Except SdkError Diagnostics)
    (hok : s.finished = false → failureOf o = none → s.stage = .returned)
    (hclosing : s.finished = false → failureOf o = none → s.pull = .closing) :
    Placed (s.finish o) := by
  cases hf : s.finished with
  | true =>
    rw [finish_of_finished hf]
    exact h.toPlaced
  | false =>
    have hfailure := (h.pending hf).2
    constructor
    case success =>
      intro _ hnone
      rw [finish_stage]
      simp only [State.finish, hf, Bool.false_eq_true, if_false] at hnone
      exact hok hf hnone
    case rejected =>
      intro e he
      rw [finish_stage] at he
      have := h.rejected e he
      rw [hfailure] at this
      cases this
    case granted =>
      intro hp
      rw [finish_permit] at hp
      rw [finish_stage, finish_release_isSome]
      exact h.granted hp
    case waiting =>
      intro hp
      rw [finish_permit] at hp
      rw [finish_stage]
      exact h.waiting hp
    case readable =>
      intro hb
      rw [finish_stage]
      simp only [State.finish, hf, Bool.false_eq_true, if_false] at hb
      split at hb
      · exact absurd hb (body_error_ne _)
      · exact h.readable hb
    case closing =>
      intro hb _
      rw [finish_pull]
      simp only [State.finish, hf, Bool.false_eq_true, if_false] at hb
      split at hb
      · exact absurd hb (body_error_ne _)
      · rename_i hnone
        exact hclosing hf (by simpa using hnone)
    case pulling =>
      intro hstage
      rw [finish_stage] at hstage
      rw [finish_pull]
      exact h.pulling hstage
    case early =>
      intro _ hcontra
      simp at hcontra

theorem invariant_error (h : Invariant s) (e : SdkError) : Invariant (s.finish (.error e)) :=
  ⟨accounted_finish h.toAccounted _,
    placed_finish h _ (fun _ hn => by cases hn) (fun _ hn => by cases hn)⟩

end Finish

section Steps

variable {s t : State}

/-- A step to another stage that leaves everything else as it is. -/
theorem invariant_stage {stage : Stage} (h : Invariant s) (hreturned : s.stage ≠ .returned)
    (hnew : ∀ e, stage ≠ .rejected e)
    (hpermit : s.permit = .granted → stage = .admitting ∨ s.release.isSome = true)
    (hwaiting : s.permit = .pending → stage = .admitting)
    (hearly : s.aborted = true → s.finished = false → stage.early = true) :
    Invariant { s with stage := stage } := by
  constructor
  · exact h.toAccounted.elsewhere
  · constructor
    case success =>
      intro hf hn
      exact absurd (h.success hf hn) hreturned
    case rejected =>
      intro e he
      exact absurd he (hnew e)
    case granted => exact hpermit
    case waiting => exact hwaiting
    case readable =>
      intro hb
      exact absurd (h.readable hb) hreturned
    case closing => exact h.closing
    case pulling =>
      intro _
      exact h.pulling hreturned
    case early => exact hearly

/-- Ordinary stages: the permit of a function that has left `admitting` is in its variable. -/
theorem invariant_advance_stage {stage : Stage} (h : Invariant s) (hreturned : s.stage ≠ .returned)
    (hadmitting : s.stage ≠ .admitting) (hnew : ∀ e, stage ≠ .rejected e)
    (hearly : s.stage.early = true → stage.early = true) : Invariant { s with stage := stage } := by
  refine invariant_stage h hreturned hnew ?_ ?_ (fun ha hf => hearly (h.early ha hf))
  · intro hp
    exact (h.granted hp).imp (fun hs => absurd hs hadmitting) id
  · intro hp
    exact absurd (h.waiting hp) hadmitting

theorem invariant_throw (h : Invariant s) (hreturned : s.stage ≠ .returned)
    (hpermit : s.permit = .granted → s.release.isSome = true) (hwaiting : s.permit ≠ .pending)
    (e : Option SdkError) : Invariant (s.throw e) := by
  apply invariant_stage h hreturned
  · intro _ hcontra
    cases hcontra
  · exact fun hp => .inr (hpermit hp)
  · exact fun hp => absurd hp hwaiting
  · exact fun _ _ => rfl

theorem not_waiting (h : Invariant s) (hstage : s.stage ≠ .admitting) : s.permit ≠ .pending :=
  fun hp => hstage (h.waiting hp)

theorem holds_permit (h : Invariant s) (hstage : s.stage ≠ .admitting)
    (hp : s.permit = .granted) : s.release.isSome = true :=
  (h.granted hp).resolve_left hstage

/-- Variables that have no part in the invariant. -/
theorem Invariant.aside (h : Invariant s) {upload reader : Option Bool} {requests : ℕ}
    {chunks : List (List UInt8)} :
    Invariant { s with
      upload := upload, reader := reader, requests := requests, chunks := chunks } :=
  ⟨h.toAccounted.elsewhere,
    ⟨h.success, h.rejected, h.granted, h.waiting, h.readable, h.closing, h.pulling, h.early⟩⟩

theorem invariant_body {body : Body} (h : Invariant s) (hbody : body ≠ .readable) :
    Invariant { s with body := body } :=
  ⟨h.toAccounted.elsewhere, ⟨h.success, h.rejected, h.granted, h.waiting,
    fun hb => absurd hb hbody, fun hb => absurd hb hbody, h.pulling, h.early⟩⟩

theorem invariant_pull {p : Pull} (h : Invariant s) (hstage : s.stage ≠ .returned → p = .idle)
    (hclosing : s.body = .readable → s.finished = true → p = .closing) :
    Invariant { s with pull := p } :=
  ⟨h.toAccounted.elsewhere,
    ⟨h.success, h.rejected, h.granted, h.waiting, h.readable, hclosing, hstage, h.early⟩⟩

theorem pull_finish (s : State) (o : Except SdkError Diagnostics) (p : Pull) :
    { s.finish o with pull := p } = { s with pull := p }.finish o := by
  simp only [State.finish]
  split <;> rfl

theorem not_readable_of_error (h : Invariant s) (e : SdkError) (hpull : s.pull ≠ .closing) :
    (s.finish (.error e)).body ≠ .readable := by
  intro hb
  have hclosing := (invariant_error h e).closing hb (finish_finished _ _)
  rw [finish_pull] at hclosing
  exact hpull hclosing

theorem invariant_pullFailed (h : Invariant s) (e : Option SdkError) (fallback : SdkError)
    (hbody : s.body = .readable → s.pull ≠ .closing) : Invariant (s.pullFailed e fallback) := by
  apply invariant_pull (invariant_error h _)
  · intro _
    rfl
  · intro hb hf
    exfalso
    by_cases hclosing : s.pull = .closing
    · by_cases hfinished : s.finished = true
      · rw [finish_of_finished hfinished] at hb
        exact hbody hb hclosing
      · simp only [State.finish, hfinished, failureOf] at hb
        exact body_error_ne _ hb
    · exact not_readable_of_error h _ hclosing hb

theorem finish_aborted (s : State) (e : SdkError) (h : s.finished = false) :
    { s with aborted := true }.finish (.error e) = s.finish (.error e) := by
  simp [State.finish, failureOf, h]

theorem invariant_abort (h : Invariant s) (e : SdkError) : Invariant (s.abort e) := by
  have hlistening := h.listening
  rw [State.abort]
  split
  · exact h
  · split
    · rename_i hon
      have hf : s.finished = false := by simpa [hon] using hlistening
      rw [finish_aborted s e hf]
      exact invariant_error h e
    · rename_i hoff
      have hf : s.finished = true := by simpa [hoff] using hlistening
      constructor
      · exact ⟨h.done, h.reservation, h.release, h.observation, h.listening, h.pending, h.outcome,
          fun _ _ => rfl⟩
      · refine ⟨h.success, h.rejected, h.granted, h.waiting, h.readable, h.closing, h.pulling, ?_⟩
        intro _ hcontra
        cases hf.symm.trans hcontra

theorem invariant_handle (h : Invariant s) {e : Option SdkError} (hstage : s.stage = .thrown e)
    (fallback : SdkError) : Invariant (s.handle e fallback) := by
  have hbase := invariant_error h (s.failure.getD (e.getD fallback))
  have hidle : s.pull = .idle := h.pulling (by simp [hstage])
  have hbody : (s.finish (.error (s.failure.getD (e.getD fallback)))).body ≠ .readable :=
    not_readable_of_error h _ (by simp [hidle])
  constructor
  · exact hbase.toAccounted.elsewhere
  · constructor
    case success =>
      intro hf hn
      have := hbase.success hf hn
      simp [hstage] at this
    case rejected =>
      intro e' he'
      cases he'
      cases hfinished : s.finished with
      | true =>
        -- a function that still throws has not succeeded
        cases hfailure : s.failure with
        | none =>
          have := h.success hfinished hfailure
          simp [hstage] at this
        | some failure =>
          simp [State.handle, finish_of_finished hfinished, hfailure]
      | false => simp [State.handle, State.finish, hfinished, failureOf]
    case granted =>
      intro hp
      have := hbase.granted hp
      simp only [finish_stage, hstage] at this
      right
      change (s.finish _).release.isSome = true
      simpa using this
    case waiting =>
      intro hp
      have := hbase.waiting hp
      simp [hstage] at this
    case readable =>
      intro hb
      exact absurd hb hbody
    case closing =>
      intro hb
      exact absurd hb hbody
    case pulling =>
      intro _
      change (s.finish _).pull = .idle
      rw [finish_pull]
      exact hidle
    case early =>
      intro _ hf
      change (s.finish _).finished = false at hf
      rw [finish_finished] at hf
      cases hf

theorem accounted_observed (h : Invariant s) {o : Observation} (ho : o.finished = s.finished)
    (hc : o.finishCalls = s.finished.toNat) : Invariant { s with observation := some o } := by
  constructor
  · refine ⟨h.done, h.reservation, h.release, ?_, h.listening, h.pending, h.outcome, h.aborted⟩
    intro o' ho'
    cases ho'
    exact ⟨ho, hc⟩
  · exact ⟨h.success, h.rejected, h.granted, h.waiting, h.readable, h.closing, h.pulling, h.early⟩

theorem invariant_observed (h : Invariant s) (hstage : s.stage = .observing) (expired : SdkError)
    (busy : Option SdkError) : Invariant (s.observed expired busy) := by
  have hreturned : s.stage ≠ .returned := by simp [hstage]
  have hadmitting : s.stage ≠ .admitting := by simp [hstage]
  have hpermit := holds_permit h hadmitting
  have hwaiting := not_waiting h hadmitting
  simp only [State.observed]
  split
  · rename_i hf
    have hobs :=
      accounted_observed h (o := Observation.finish {}) (by simp [Observation.finish, hf])
      (by simp [Observation.finish, hf])
    exact invariant_throw hobs hreturned hpermit hwaiting _
  · rename_i hf
    have hf : s.finished = false := by simpa using hf
    have hobs := accounted_observed h (o := {}) (by simp [hf]) (by simp [hf])
    split
    · exact invariant_throw hobs hreturned hpermit hwaiting _
    · rename_i hlive
      cases busy with
      | some e => exact invariant_throw hobs hreturned hpermit hwaiting _
      | none =>
        have hstaged : Invariant { s with observation := some {}, stage := .capabilities } := by
          apply invariant_stage hobs hreturned
          · intro _ hcontra
            cases hcontra
          · exact fun hp => .inr (hpermit hp)
          · exact fun hp => absurd hp hwaiting
          · exact fun ha => absurd ha hlive
        constructor
        · refine ⟨hstaged.done, ?_, hstaged.release, hstaged.observation, hstaged.listening,
            hstaged.pending, hstaged.outcome, hstaged.aborted⟩
          intro k hk
          cases hk
          simp [hf]
        · exact ⟨hstaged.success, hstaged.rejected, hstaged.granted, hstaged.waiting,
            hstaged.readable, hstaged.closing, hstaged.pulling, hstaged.early⟩

theorem invariant_acquire (h : Invariant s) (hstage : s.stage = .capabilities)
    (expired : SdkError) : Invariant (s.acquire expired) := by
  have hbase : Invariant { s with stage := .admitting } := by
    apply invariant_stage h
    · simp [hstage]
    · intro _ hcontra
      cases hcontra
    · exact fun _ => .inl rfl
    · exact fun _ => rfl
    · intro ha hf
      have := h.early ha hf
      simp [hstage, Stage.early] at this
  constructor
  · exact hbase.toAccounted.elsewhere
  · refine ⟨hbase.success, hbase.rejected, fun _ => .inl rfl, fun _ => rfl, hbase.readable,
      hbase.closing, hbase.pulling, hbase.early⟩

theorem invariant_release {k : ℕ} (h : Invariant s) (hk : k = s.finished.toNat) :
    Invariant { s with release := some k } := by
  constructor
  · refine ⟨h.done, h.reservation, ?_, h.observation, h.listening, h.pending, h.outcome, h.aborted⟩
    intro j hj
    cases hj
    exact hk
  · exact ⟨h.success, h.rejected, fun _ => .inr rfl, h.waiting, h.readable, h.closing, h.pulling,
      h.early⟩

theorem invariant_admitted (h : Invariant s) (hstage : s.stage = .admitting)
    (ht : s.admitted = some t) : Invariant t := by
  have hreturned : s.stage ≠ .returned := by simp [hstage]
  simp only [State.admitted] at ht
  split at ht
  · rename_i hp
    have hwaiting : s.permit ≠ .pending := by simp [hp]
    split at ht
    · rename_i hf
      cases ht
      exact invariant_throw (invariant_release h (by simp [hf])) hreturned (fun _ => rfl) hwaiting _
    · rename_i hf
      cases ht
      have hf : s.finished = false := by simpa using hf
      apply invariant_stage (invariant_release h (by simp [hf])) hreturned
      · intro _ hcontra
        cases hcontra
      · exact fun _ => .inr rfl
      · exact fun hcontra => absurd hcontra hwaiting
      · intro ha hfin
        have := h.early ha hfin
        simp [hstage, Stage.early] at this
  · rename_i e hp
    cases ht
    apply invariant_throw h hreturned
    · simp [hp]
    · simp [hp]
  · cases ht

theorem invariant_announced (h : Invariant s) (hstage : s.stage = .announcing) :
    Invariant s.announced := by
  have hreturned : s.stage ≠ .returned := by simp [hstage]
  have hadmitting : s.stage ≠ .admitting := by simp [hstage]
  have hpermit := holds_permit h hadmitting
  have hwaiting := not_waiting h hadmitting
  rw [State.announced]
  split
  · have hbody : Invariant { s with body := .errored } := invariant_body h (by simp)
    exact invariant_throw hbody hreturned hpermit hwaiting _
  · rename_i hf
    have hf : s.finished = false := by simpa using hf
    refine ⟨h.toAccounted.elsewhere, ?_⟩
    constructor
    case success => exact fun _ _ => rfl
    case rejected =>
      intro _ hcontra
      cases hcontra
    case granted => exact fun hp => .inr (hpermit hp)
    case waiting => exact fun hp => absurd hp hwaiting
    case readable => exact fun _ => rfl
    case closing =>
      intro _ hcontra
      cases hf.symm.trans hcontra
    case pulling =>
      intro hcontra
      exact absurd rfl hcontra
    case early =>
      intro ha hfin
      have := h.early ha hfin
      simp [hstage, Stage.early] at this

theorem invariant_unlessAborted {e : Option SdkError} (h : Invariant s)
    (hreturned : s.stage ≠ .returned) (hadmitting : s.stage ≠ .admitting)
    (ht : s.aborted = false → Invariant t) : Invariant (s.unlessAborted e t) := by
  rw [State.unlessAborted]
  split
  · exact invariant_throw h hreturned (holds_permit h hadmitting) (not_waiting h hadmitting) _
  · rename_i hlive
    exact ht (by simpa using hlive)

theorem invariant_advance {e : Event} (h : Invariant s) (hn : advance s e = some t) :
    Invariant t := by
  cases e with
  | raise e =>
    simp only [advance] at hn
    split at hn
    · rename_i hraises
      cases hn
      have hreturned : s.stage ≠ .returned := by
        intro hr
        simp [hr, Stage.raises] at hraises
      have hadmitting : s.stage ≠ .admitting := by
        intro hr
        simp [hr, Stage.raises] at hraises
      exact invariant_throw h hreturned (holds_permit h hadmitting) (not_waiting h hadmitting) _
    · cases hn
  | handle fallback =>
    simp only [advance] at hn
    split at hn
    · rename_i e hstage
      cases hn
      exact invariant_handle h hstage fallback
    · cases hn
  | validated =>
    simp only [advance] at hn
    split at hn
    · rename_i hstage
      cases hn
      apply invariant_advance_stage h <;> simp [hstage, Stage.early]
    · cases hn
  | observed expired busy =>
    simp only [advance] at hn
    split at hn
    · rename_i hstage
      cases hn
      exact invariant_observed h hstage expired busy
    · cases hn
  | capabilities expired =>
    simp only [advance] at hn
    split at hn
    · rename_i hstage
      cases hn
      exact invariant_acquire h hstage expired
    · cases hn
  | admitted =>
    simp only [advance] at hn
    split at hn
    · rename_i hstage
      exact invariant_admitted h hstage hn
    · cases hn
  | prepared expired =>
    simp only [advance] at hn
    split at hn
    · rename_i hstage
      cases hn
      have hupload : Invariant { s with upload := some false } := h.aside
      apply invariant_unlessAborted hupload
      · simp [hstage]
      · simp [hstage]
      · intro hlive
        apply invariant_advance_stage hupload <;> simp [hstage, Stage.early]
    · cases hn
  | invoked expired =>
    simp only [advance] at hn
    split at hn
    · rename_i hstage
      cases hn
      apply invariant_unlessAborted h
      · simp [hstage]
      · simp [hstage]
      · intro hlive
        apply invariant_advance_stage h <;> simp [hstage, Stage.early]
    · cases hn
  | dispatched expired =>
    simp only [advance] at hn
    split at hn
    · rename_i hstage
      cases hn
      apply invariant_unlessAborted h
      · simp [hstage]
      · simp [hstage]
      · intro hlive
        have hmoved : Invariant { s with stage := .transporting } := by
          apply invariant_advance_stage h <;> simp [hstage, Stage.early]
        exact hmoved.aside
    · cases hn
  | responded ok =>
    simp only [advance] at hn
    split at hn
    · rename_i hstage
      cases hn
      cases ok with
      | true =>
        have hreader : Invariant { s with reader := some false } := h.aside
        apply invariant_advance_stage hreader <;> simp [hstage, Stage.early]
      | false => apply invariant_advance_stage h <;> simp [hstage, Stage.early]
    · cases hn
  | errorFrame e =>
    simp only [advance] at hn
    split at hn
    · rename_i hstage
      cases hn
      apply invariant_advance_stage h <;> simp [hstage, Stage.early]
    · cases hn
  | errorEnds =>
    simp only [advance] at hn
    split at hn
    · rename_i e hstage
      cases hn
      apply invariant_advance_stage h <;> simp [hstage, Stage.early]
    · cases hn
  | metadata =>
    simp only [advance] at hn
    split at hn
    · rename_i hstage
      cases hn
      apply invariant_advance_stage h <;> simp [hstage, Stage.early]
    · cases hn
  | announced =>
    simp only [advance] at hn
    split at hn
    · rename_i hstage
      cases hn
      exact invariant_announced h hstage
    · cases hn
  | _ => cases hn

theorem invariant_stream {e : Event} (h : Invariant s) (hn : stream s e = some t) :
    Invariant t := by
  have hstage : s.pull ≠ .idle → s.stage = .returned := by
    intro hpull
    by_contra hreturned
    exact hpull (h.pulling hreturned)
  cases e with
  | pull =>
    simp only [stream] at hn
    split at hn
    · rename_i hidle
      split at hn
      · rename_i hbody
        split at hn
        · cases hn
          exact h
        · rename_i hf
          cases hn
          exact invariant_pull h (fun hr => absurd (h.readable hbody) hr) (fun _ hc => absurd hc hf)
      · cases hn
    · cases hn
  | pulled r fallback =>
    simp only [stream] at hn
    split at hn
    · rename_i payload hreading
      cases hn
      refine invariant_pull h (fun hr => absurd (hstage (by simp [hreading])) hr) ?_
      intro hb hf
      have := h.closing hb hf
      simp [hreading] at this
    · rename_i outcome hreading
      cases hn
      refine invariant_pull h (fun hr => absurd (hstage (by simp [hreading])) hr) ?_
      intro hb hf
      have := h.closing hb hf
      simp [hreading] at this
    · rename_i e hreading
      cases hn
      exact invariant_pullFailed h e fallback (fun _ => by simp [hreading])
    · cases hn
  | delivered fallback =>
    simp only [stream] at hn
    split at hn
    · rename_i payload hdelivering
      split at hn
      · rename_i hbody
        cases hn
        have hpull := invariant_pull (p := .idle) h (fun _ => rfl) (fun hb hf => by
          have := h.closing hb hf
          simp [hdelivering] at this)
        exact hpull.aside
      · cases hn
        exact invariant_pullFailed h none fallback (fun _ => by simp [hdelivering])
    · cases hn
  | lastEnds e fallback =>
    simp only [stream] at hn
    split at hn
    · rename_i last e' hending
      cases hn
      exact invariant_pullFailed h e' fallback (fun _ => by simp [hending])
    · rename_i e' hending
      cases hn
      exact invariant_pullFailed h (some e') fallback (fun _ => by simp [hending])
    · rename_i d hending
      cases hn
      have hreturned := hstage (by simp [hending])
      rw [pull_finish]
      have hclosing : Invariant { s with pull := .closing } :=
        invariant_pull h (fun hr => absurd hreturned hr) (fun _ _ => rfl)
      exact ⟨accounted_finish hclosing.toAccounted _,
        placed_finish hclosing _ (fun _ _ => hreturned) (fun _ _ => rfl)⟩
    · cases hn
  | closed fallback =>
    simp only [stream] at hn
    split at hn
    · rename_i hclosing
      split at hn
      · cases hn
        have hclosed : Invariant { s with body := .closed } := invariant_body h (by simp)
        exact invariant_pull hclosed (fun _ => rfl) (fun hcontra => by cases hcontra)
      · rename_i hbody
        cases hn
        exact invariant_pullFailed h none fallback (fun hb => absurd hb hbody)
    · cases hn
  | _ => cases hn

theorem invariant_outside {e : Event} (h : Invariant s) (hn : outside s e = some t) :
    Invariant t := by
  cases e with
  | abort e =>
    cases hn
    exact invariant_abort h e
  | uploadFailed e =>
    simp only [outside] at hn
    split at hn
    · cases hn
      exact invariant_error h e
    · cases hn
  | close e =>
    simp only [outside] at hn
    split at hn
    · cases hn
      exact invariant_error h e
    · cases hn
  | cancel e =>
    simp only [outside] at hn
    split at hn
    · rename_i hbody
      cases hn
      exact invariant_error (invariant_body h (by simp)) e
    · cases hn
  | settlePermit refused =>
    simp only [outside] at hn
    split at hn
    · rename_i hpending
      cases hn
      have hstage := h.waiting hpending
      exact ⟨h.toAccounted.elsewhere, ⟨h.success, h.rejected, fun _ => .inl hstage,
        fun _ => hstage, h.readable, h.closing, h.pulling, h.early⟩⟩
    · cases hn
  | _ => cases hn

theorem next_cases {e : Event} (hn : next s e = some t) :
    outside s e = some t ∨ advance s e = some t ∨ stream s e = some t := by
  rw [next, Option.or_eq_some_iff, Option.or_eq_some_iff] at hn
  tauto

theorem invariant_step {e : Event} (h : Invariant s) (hn : next s e = some t) : Invariant t := by
  rcases next_cases hn with ho | ha | hst
  · exact invariant_outside h ho
  · exact invariant_advance h ha
  · exact invariant_stream h hst

end Steps

end ExchangeInvariant
