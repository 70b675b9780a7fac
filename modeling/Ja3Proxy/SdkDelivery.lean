import Ja3Proxy.SdkExchange

/-! What the delivery of a rejected call says about its dispatch.
A step is clean when it does not reach one of the three places where a layer above the
dispatched exchange builds an error from diagnostics that never left `preparing`, or trusts
diagnostics of another request. -/
namespace SdkDelivery

open SdkErrors SdkExchange TransitionRuns

def Reported (c : Call) (s : State) : Prop :=
  ∃ d, s.reported = some d ∧ diagnosticsOk d (some (c.requestId, c.attempt)) = true ∧
    d.delivery = .notStarted

def Honest (c : Call) (s : State) : Prop :=
  ∀ e, s.outcome = some (.error e) → e.delivery = .notStarted →
    s.dispatched = false ∨ Reported c s

/-- Diagnostics of another request that the identifier `control` lets through. -/
def Misattributed (c : Call) (d : Diagnostics) : Prop :=
  c.requestId = "control" ∧ d.delivery = .notStarted ∧ diagnosticsOk d none = true ∧
    diagnosticsOk d (some (c.requestId, c.attempt)) = false

def RevisionOk (info : Info) (value : ResponseMetadata) : Target → Prop
  | .session managed contextId revision =>
    (managed = true → ∃ r, value.cookieRevision = some r ∧ revision ≤ r) ∧
    (info.contextId = contextId → ∀ r, value.cookieRevision = some r → info.revision ≤ r)
  | _ => True

def Clean (c : Call) (s : State) (ev : Event) : Prop :=
  match ev.act with
  | .errorBody size json => s.failed = false → size ≤ c.controlLimit →
      ∀ d, reportedBy json = some d → ¬ Misattributed c d
  | .handOut info => ∀ value, s.metadata = some value → RevisionOk info value c.target
  | .construct => ∀ value, s.metadata = some value → byteHeaders value.headers = true
  | _ => True

def LastOk (c : Call) : Option Last → Prop
  | none => True
  | some (.failed e) => e.delivery ≠ .notStarted
  | some (.complete d) =>
    d.delivery ≠ .notStarted ∧ d.requestId = c.requestId ∧ d.attempt = c.attempt

def StageOk (c : Call) (s : State) : Stage → Prop
  | .rejecting e => s.failed = false → e.delivery = .notStarted → Reported c s
  | .reading last => LastOk c last ∧
      ∃ value, s.metadata = some value ∧ (c.mode = .fetch → bodyless c value = true)
  | .received => c.mode ≠ .fetch
  | _ => True

structure Sound (c : Call) (s : State) : Prop where
  idle : s.stage = .preparing → s.dispatched = false
  started : s.stage ≠ .preparing → s.dispatched = true
  reported : (∀ e, s.stage ≠ .rejecting e) → s.reported = none
  opaque_id : s.dispatched = true → opaqueText c.requestId = true
  delivery : s.dispatched = true → s.diag.delivery ≠ .notStarted
  known : s.failed = false → opaqueText c.requestId = true →
    s.diag.requestId = c.requestId ∧ s.diag.attempt = c.attempt
  failure : ∀ e, s.terminal = some (.error e) → s.dispatched = true → e.delivery ≠ .notStarted
  completion : ∀ d, s.terminal = some (.ok d) → d.delivery ≠ .notStarted
  metadata : ∀ value, s.metadata = some value → metadataOk c value = true
  stage : StageOk c s s.stage

variable {c : Call} {s t : State} {m : Meter}

@[simp] theorem updateLocal_delivery : (s.updateLocal m).delivery = s.diag.delivery := rfl

@[simp] theorem protocolError_delivery {d : Diagnostics} :
    (protocolError c d).delivery = d.delivery := rfl

@[simp] theorem finish_stage {e : SdkError} : (s.finish e).stage = s.stage := by
  unfold State.finish; split <;> rfl

@[simp] theorem finish_metadata {e : SdkError} : (s.finish e).metadata = s.metadata := by
  unfold State.finish; split <;> rfl

@[simp] theorem finish_dispatched {e : SdkError} : (s.finish e).dispatched = s.dispatched := by
  unfold State.finish; split <;> rfl

@[simp] theorem finish_reported {e : SdkError} : (s.finish e).reported = s.reported := by
  unfold State.finish; split <;> rfl

@[simp] theorem finish_outcome {e : SdkError} : (s.finish e).outcome = s.outcome := by
  unfold State.finish; split <;> rfl

theorem failed_iff : s.failed = true ↔ ∃ e, s.terminal = some (.error e) := by
  unfold State.failed
  split <;> simp_all

theorem Sound.initial : Sound c (.initial c) where
  idle := fun _ => rfl
  started := fun h => absurd rfl h
  reported := fun _ => rfl
  opaque_id := by intro h; cases h
  delivery := by intro h; cases h
  known := by
    intro _ hid
    exact ⟨by simp [State.initial, initialDiagnostics, hid], rfl⟩
  failure := by intro e h; cases h
  completion := by intro d h; cases h
  metadata := by intro value h; cases h
  stage := trivial

/-- The completion is settled once, with an error that does not deny the dispatch. -/
theorem Sound.finish (h : Sound c s) {e : SdkError}
    (he : s.dispatched = true → e.delivery ≠ .notStarted) : Sound c (s.finish e) := by
  by_cases hs : s.terminal.isSome
  · rw [State.finish, if_pos hs]
    exact h
  · rw [State.finish, if_neg hs]
    refine ⟨h.idle, h.started, h.reported, h.opaque_id, he, ?_, ?_, ?_, h.metadata, ?_⟩
    · intro hf
      cases (hf : true = false)
    · intro f hf
      cases hf
      exact he
    · intro d hd
      cases hd
    · have hstage := h.stage
      cases hg : s.stage <;> rw [hg] at hstage <;> try exact hstage
      intro hf
      cases (hf : true = false)

theorem Sound.underway (h : Sound c s) {stage : Stage} (hs : s.stage = stage)
    (hp : stage ≠ .preparing) (hr : ∀ e, stage ≠ .rejecting e) :
    s.dispatched = true ∧ s.reported = none := by
  subst hs
  exact ⟨h.started hp, h.reported hr⟩

theorem Sound.goto (h : Sound c s) {stage : Stage} (hd : s.dispatched = true)
    (hr : s.reported = none) (hp : stage ≠ .preparing)
    (ho : StageOk c { s with stage := stage } stage) : Sound c { s with stage := stage } where
  idle := fun hs => absurd hs hp
  started := fun _ => hd
  reported := fun _ => hr
  opaque_id := h.opaque_id
  delivery := h.delivery
  known := h.known
  failure := h.failure
  completion := h.completion
  metadata := h.metadata
  stage := ho

theorem normalize_cases (c : Call) (s : State) (m : Meter) (thrown : Thrown) :
    s.terminal = some (.error (c.normalize s m thrown)) ∨
    s.failed = false ∧ (thrown = .sdk (c.normalize s m thrown) ∨
      thrown = .foreign ∧ (c.normalize s m thrown).delivery = s.diag.delivery) := by
  unfold Call.normalize State.failed
  rcases s.terminal with _ | _ | _ <;> rcases thrown with _ | _ <;> simp

theorem Sound.normalize_foreign (h : Sound c s) (hd : s.dispatched = true) :
    (c.normalize s m .foreign).delivery ≠ .notStarted := by
  obtain hf | ⟨-, he | ⟨-, he⟩⟩ := normalize_cases c s m .foreign
  · exact h.failure _ hf hd
  · cases he
  · rw [he]
    exact h.delivery hd

/-- Once the exchange has failed, its failure is all that can be thrown. -/
theorem fail_of_failed {thrown : Thrown} {f : SdkError} (ht : s.terminal = some (.error f))
    (hf : f.delivery ≠ .notStarted) : Honest c (fail c s m thrown) := by
  intro e he hn
  obtain hs | ⟨hs, -⟩ := normalize_cases c s m thrown
  · cases ht.symm.trans hs
    cases he
    exact absurd hn hf
  · cases (failed_iff.mpr ⟨f, ht⟩).symm.trans hs

theorem Sound.fail (h : Sound c s) {thrown : Thrown}
    (ht : ∀ e, thrown = .sdk e → s.failed = false → e.delivery = .notStarted →
      s.dispatched = false ∨ Reported c s) : Honest c (fail c s m thrown) := by
  intro e he hn
  have hne : c.normalize s m thrown = e := by
    simpa [SdkExchange.fail, State.settle] using he
  subst hne
  simp only [SdkExchange.fail, State.settle, finish_dispatched, Reported, finish_reported]
  by_cases hd : s.dispatched = true
  · obtain hf | ⟨hf, hs | ⟨-, hs⟩⟩ := normalize_cases c s m thrown
    · exact absurd hn (h.failure _ hf hd)
    · exact ht _ hs hf hn
    · exact absurd (hs ▸ hn) (h.delivery hd)
  · exact .inl (by simpa using hd)

theorem Sound.fail_foreign (h : Sound c s) : Honest c (SdkExchange.fail c s m .foreign) :=
  h.fail (by intro e he; cases he)

/-- An error with the diagnostics of the exchange as they stand. -/
theorem Sound.fail_protocol (h : Sound c s) {d : Diagnostics} (hd : s.dispatched = true)
    (he : d.delivery = s.diag.delivery) :
    Honest c (SdkExchange.fail c s m (.sdk (protocolError c d))) := by
  apply h.fail
  intro e hs _ hn
  cases hs
  rw [protocolError_delivery, he] at hn
  exact absurd hn (h.delivery hd)

theorem honest_of_pending (h : s.outcome = none) : Honest c s := by
  intro e he
  rw [h] at he
  cases he

theorem honest_of_ok : Honest c (s.settle (.ok ())) := by
  intro e he
  cases he

theorem honest_of_delivery {e : SdkError} (he : e.delivery ≠ .notStarted) :
    Honest c (s.settle (.error e)) := by
  intro f hf hn
  cases hf
  exact absurd hn he

theorem dishonest_of_notStarted {e : SdkError} (hd : s.dispatched = true) (hr : s.reported = none)
    (he : e.delivery = .notStarted) : ¬ Honest c (s.settle (.error e)) := by
  intro h
  obtain hn | ⟨d, hs, -⟩ := h e rfl he
  · cases hd.symm.trans hn
  · cases hr.symm.trans hs

structure Keeps (c : Call) (t : State) : Prop where
  sound : t.outcome = none → Sound c t
  honest : Honest c t

theorem Keeps.live (ho : t.outcome = none) (hs : Sound c t) : Keeps c t :=
  ⟨fun _ => hs, honest_of_pending ho⟩

theorem Keeps.answered {r : Except SdkError Unit} (h : Honest c (s.settle r)) :
    Keeps c (s.settle r) :=
  ⟨fun ho => (by cases ho), h⟩

theorem Keeps.finish (h : Sound c s) (ho : s.outcome = none) {e : SdkError}
    (he : s.dispatched = true → e.delivery ≠ .notStarted) : Keeps c (s.finish e) :=
  .live (by rw [finish_outcome]; exact ho) (h.finish he)

theorem Keeps.finish_protocol (h : Sound c s) (ho : s.outcome = none) :
    Keeps c (s.finish (protocolError c (s.updateLocal m))) :=
  .finish h ho h.delivery

theorem Keeps.finish_foreign (h : Sound c s) (ho : s.outcome = none) :
    Keeps c (s.finish (c.normalize s m .foreign)) :=
  .finish h ho h.normalize_foreign

theorem Keeps.fail_foreign (h : Sound c s) : Keeps c (fail c s m .foreign) :=
  .answered h.fail_foreign

theorem Keeps.fail_protocol (h : Sound c s) (hd : s.dispatched = true) :
    Keeps c (fail c s m (.sdk (protocolError c s.diag))) :=
  .answered (h.fail_protocol hd rfl)

theorem raise_keeps (h : Sound c s) {thrown : Thrown} (hn : raise c s m thrown = some t) :
    Keeps c t := by
  unfold raise at hn
  split at hn
  · next hp =>
    cases hn
    refine .answered (h.fail ?_)
    intro e _ _ _
    exact .inl (h.idle hp)
  · cases hn

theorem dispatch_keeps (h : Sound c s) (ho : s.outcome = none) {queueMs : ℕ}
    (hn : dispatch c s queueMs = some t) : Keeps c t := by
  unfold dispatch at hn
  split at hn
  · next hg =>
    obtain ⟨hp, ht, hid⟩ := hg
    have hnone : s.terminal = none := by simpa using ht
    have hfailed : s.failed = false := by simp [State.failed, hnone]
    have hquiet : s.reported = none := h.reported (by intro e; rw [hp]; simp)
    cases hn
    refine .live ho ⟨?_, fun _ => rfl, fun _ => hquiet, fun _ => hid, ?_, ?_, ?_, ?_, h.metadata,
      trivial⟩
    · intro hs
      cases hs
    · intro _ hs
      cases hs
    · intro _ _
      exact h.known hfailed hid
    · intro e he
      cases hnone.symm.trans he
    · intro d hd
      cases hnone.symm.trans hd
  · cases hn

theorem reject_keeps (h : Sound c s) (ho : s.outcome = none) (hn : reject c s m = some t) :
    Keeps c t := by
  unfold reject at hn
  split at hn
  case h_5 =>
    cases hn
    exact .finish_foreign h ho
  case h_6 => cases hn
  all_goals
    cases hn
    exact .fail_foreign h

theorem respond_keeps (h : Sound c s) (ho : s.outcome = none) {head : Head}
    (hn : respond c s m head = some t) : Keeps c t := by
  unfold respond at hn
  split at hn
  · next hp =>
    obtain ⟨hd, hquiet⟩ := h.underway hp (by simp) (by simp)
    split at hn
    · cases hn
      exact .live ho (h.goto hd hquiet (by simp) trivial)
    · split at hn
      · cases hn
        exact .live ho (h.goto hd hquiet (by simp) trivial)
      · cases hn
        exact .fail_protocol h hd
  · cases hn

theorem uploadFailed_keeps (h : Sound c s) (ho : s.outcome = none) {tooLarge : Bool}
    (hn : uploadFailed c s m tooLarge = some t) : Keeps c t := by
  unfold uploadFailed at hn
  split at hn
  · cases hn
    exact .finish h ho h.delivery
  · cases hn

theorem withdraw_keeps (h : Sound c s) (hn : withdraw c s m = some t) : Keeps c t := by
  unfold withdraw at hn
  split at hn
  · next failure hp ht =>
    cases hn
    exact .answered (fail_of_failed ht (h.failure failure ht (h.started (by rw [hp]; simp))))
  · cases hn

theorem completeOk_last {value : ResponseMetadata} {d : Diagnostics}
    (h : completeOk c s value d = true) : LastOk c (some (.complete d)) := by
  simp only [completeOk, Bool.and_eq_true, beq_iff_eq] at h
  refine ⟨?_, diagnosticsOk_correlated h.1.1.1.1.1⟩
  rw [h.1.1.1.2]
  simp

theorem metadataOk_response {value : ResponseMetadata} (h : metadataOk c value = true) :
    responseMetadataOk value c.requestId c.attempt = true := by
  simp only [metadataOk, Bool.and_eq_true] at h
  exact h.1.1

theorem metadataOk_delivery {value : ResponseMetadata} (h : metadataOk c value = true) :
    value.diagnostics.delivery ≠ .notStarted := by
  rw [responseMetadata_delivery (metadataOk_response h)]
  simp

/-- An error frame in place of a response is trusted for its own request only. -/
theorem errorFrame_reported (h : Sound c s) (hd : s.dispatched = true) (hf : s.failed = false)
    {json : Json WireError}
    (hn : (transportError json.value s.diag c.usedProxy true).delivery = .notStarted) :
    ∃ d, reportedBy json = some d ∧ diagnosticsOk d (some (c.requestId, c.attempt)) = true ∧
      d.delivery = .notStarted := by
  obtain ⟨code, d, hv, hdelivery, -, hcorrelated⟩ :=
    transportError_notStarted (h.delivery hd) hn
  obtain ⟨hid, hattempt⟩ := h.known hf (h.opaque_id hd)
  have hok := hcorrelated (.inr rfl)
  rw [hid, hattempt] at hok
  exact ⟨d, by simp [reportedBy, hv], hok, hdelivery⟩

theorem firstFrame_keeps (h : Sound c s) (ho : s.outcome = none) (hp : s.stage = .opening)
    (f : Option Frame) : Keeps c (firstFrame c s m f) := by
  obtain ⟨hd, hquiet⟩ := h.underway hp (by simp) (by simp)
  unfold firstFrame
  split
  · next json =>
    split
    · exact .fail_foreign h
    · refine .live ho ⟨?_, fun _ => hd, ?_, h.opaque_id, h.delivery, h.known, h.failure,
        h.completion, h.metadata, ?_⟩
      · intro hs
        cases hs
      · intro hs
        exact absurd rfl (hs _)
      · intro hf hn
        exact errorFrame_reported h hd hf hn
  · exact .fail_foreign h
  · next value =>
    split
    · exact .fail_protocol h hd
    · next hok =>
      have hvalue : metadataOk c value = true := by simpa using hok
      split
      · exact .fail_foreign h
      · next hnone =>
        refine .live ho ⟨?_, fun _ => hd, fun _ => hquiet, h.opaque_id, ?_, ?_, h.failure,
          h.completion, ?_, trivial⟩
        · intro hs
          cases hs
        · intro _
          exact metadataOk_delivery hvalue
        · intro _ _
          exact responseMetadata_correlated (metadataOk_response hvalue)
        · intro v hv
          cases hv
          exact hvalue
  · exact .fail_protocol h hd

theorem afterError_keeps (h : Sound c s) {e : SdkError} (hp : s.stage = .rejecting e)
    (f : Option Frame) : Keeps c (afterError c s m e f) := by
  have hd : s.dispatched = true := h.started (by rw [hp]; simp)
  cases f with
  | none =>
    refine .answered (h.fail ?_)
    intro e' he hf hn
    cases he
    have hstage := h.stage
    rw [hp] at hstage
    exact .inr (hstage hf hn)
  | some f => exact .fail_protocol h hd

theorem bodyFrame_keeps (h : Sound c s) (ho : s.outcome = none) (hp : s.stage = .reading none)
    {value : ResponseMetadata} (hm : s.metadata = some value) (f : Option Frame) :
    Keeps c (bodyFrame c s m value f) := by
  obtain ⟨hd, hquiet⟩ := h.underway hp (by simp) (by simp)
  have hfetch : c.mode = .fetch → bodyless c value = true := by
    have hstage := h.stage
    rw [hp] at hstage
    obtain ⟨-, v, hv, hmode⟩ := hstage
    cases hm.symm.trans hv
    exact hmode
  unfold bodyFrame
  split
  · next payload =>
    split
    · exact .finish_protocol h ho
    · next hbody =>
      split
      · exact .finish h ho h.delivery
      · have hmode : c.mode ≠ .fetch := by
          intro hmode
          simp [hfetch hmode] at hbody
        refine .live ho ⟨?_, fun _ => hd, fun _ => hquiet, h.opaque_id, h.delivery, h.known,
          h.failure, h.completion, h.metadata, hmode⟩
        intro hs
        cases hs
  · next json =>
    split
    · exact .finish_foreign h ho
    · split
      · next hstarted =>
        refine .live ho (h.goto hd hquiet (by simp) ⟨?_, value, hm, hfetch⟩)
        simp [LastOk, hstarted]
      · exact .finish_protocol h ho
  · exact .finish_foreign h ho
  · next d =>
    split
    · next hok =>
      exact .live ho (h.goto hd hquiet (by simp) ⟨completeOk_last hok, value, hm, hfetch⟩)
    · exact .finish_protocol h ho
  · exact .finish_protocol h ho

theorem afterLast_keeps (h : Sound c s) (ho : s.outcome = none) {last : Last}
    (hp : s.stage = .reading (some last)) (f : Option Frame) :
    Keeps c (afterLast c s m last f) := by
  have hstage := h.stage
  rw [hp] at hstage
  obtain ⟨hlast, hbody⟩ := hstage
  cases f with
  | some f => cases last <;> exact .finish_protocol h ho
  | none =>
    cases last with
    | failed e => exact .finish h ho fun _ => hlast
    | complete d =>
      obtain ⟨hdelivery, hknown⟩ := hlast
      refine .live ho ⟨h.idle, h.started, h.reported, h.opaque_id, fun _ => hdelivery,
        fun _ _ => hknown, ?_, ?_, h.metadata, ?_⟩
      · intro e he
        cases he
      · intro d' hd
        cases hd
        exact hdelivery
      · change StageOk c _ s.stage
        rw [hp]
        exact ⟨⟨hdelivery, hknown⟩, hbody⟩

theorem frame_keeps (h : Sound c s) (ho : s.outcome = none) {f : Option Frame}
    (hn : frame c s m f = some t) : Keeps c t := by
  unfold frame at hn
  split at hn
  · next hp =>
    cases hn
    exact firstFrame_keeps h ho hp f
  · next e hp =>
    cases hn
    exact afterError_keeps h hp f
  · next last value hp hm =>
    split at hn
    · cases hn
      exact .live ho h
    · cases last with
      | none =>
        cases hn
        exact bodyFrame_keeps h ho hp hm f
      | some last =>
        cases hn
        exact afterLast_keeps h ho hp f
  · cases hn

/-- The handler of `buffer` throws what the exchange completed with, or an error about it. -/
theorem bufferFailed_keeps (h : Sound c s) (hd : s.dispatched = true) {value : ResponseMetadata}
    {thrown : Thrown} (ht : ∀ e, thrown = .sdk e → e.delivery ≠ .notStarted) :
    Keeps c (bufferFailed c s m value thrown) := by
  unfold bufferFailed
  split
  · refine .answered (h.fail ?_)
    intro e he _ hn
    cases he
    exact absurd hn (h.delivery hd)
  · next e he =>
    exact .answered (honest_of_delivery (h.failure e he hd))
  · next d hcompleted =>
    refine .answered (honest_of_delivery ?_)
    cases thrown with
    | foreign => exact h.completion d hcompleted
    | sdk e => exact ht e rfl

theorem take_keeps (h : Sound c s) (ho : s.outcome = none) {taken : Taken}
    (hn : take c s m taken = some t) : Keeps c t := by
  unfold take at hn
  split at hn
  · next value hp hm =>
    obtain ⟨hd, hquiet⟩ := h.underway hp (by simp) (by simp)
    have hmode : c.mode ≠ .fetch := by
      have hstage := h.stage
      rw [hp] at hstage
      exact hstage
    split at hn
    · next hfetch => exact absurd hfetch hmode
    · cases hn
      exact .live ho (h.goto hd hquiet (by simp) ⟨trivial, value, hm, fun hf => absurd hf hmode⟩)
    · cases hn
      apply bufferFailed_keeps h hd
      intro e he
      cases he
      exact metadataOk_delivery (h.metadata value hm)
    · cases hn
      exact bufferFailed_keeps h hd (by intro e he; cases he)
  · cases hn

theorem finishRead_keeps (h : Sound c s) (ho : s.outcome = none) {assembled : Bool}
    (hn : finishRead c s m assembled = some t) : Keeps c t := by
  unfold finishRead at hn
  split at hn
  · next hp hm hc =>
    obtain ⟨hd, hquiet⟩ := h.underway hp (by simp) (by simp)
    split at hn
    · cases hn
      exact .live ho (h.goto hd hquiet (by simp) trivial)
    · cases hn
      split
      · exact .answered honest_of_ok
      · exact bufferFailed_keeps h hd (by intro e he; cases he)
  · next e hp hm he =>
    have hd : s.dispatched = true := h.started (by rw [hp]; simp)
    split at hn
    · cases hn
      exact .answered (honest_of_delivery (h.failure e he hd))
    · cases hn
      apply bufferFailed_keeps h hd
      intro e' he'
      cases he'
      exact h.failure _ he hd
  · cases hn

theorem applyRevision_cases (info : Info) (r : ℕ) (contextId : String) :
    (∃ i, applyRevision info r contextId = .ok i ∧
      (info.contextId = contextId → info.revision ≤ r)) ∨
    ∃ e, applyRevision info r contextId = .error e ∧ e.delivery = .notStarted ∧
      ¬ (info.contextId = contextId → info.revision ≤ r) := by
  unfold applyRevision
  split
  · next hid => exact .inl ⟨info, rfl, fun h => absurd h hid⟩
  · next hid =>
    split
    · next hr =>
      refine .inr ⟨_, rfl, rfl, ?_⟩
      intro h
      exact absurd (h (not_not.mp hid)) (Nat.not_le_of_lt hr)
    · next hr => exact .inl ⟨_, rfl, fun _ => Nat.le_of_not_lt hr⟩

/-- A session refuses exactly the revisions that go backwards. The context of the exchange
has been checked before. -/
theorem sessionCheck_cases (info : Info) {value : ResponseMetadata} {target : Target}
    (hcontext : ∀ contextId, target.contextId = some contextId →
      value.diagnostics.contextId = some contextId) :
    (∃ i, sessionCheck info value target = .ok i ∧ RevisionOk info value target) ∨
    ∃ e, sessionCheck info value target = .error e ∧ e.delivery = .notStarted ∧
      ¬ RevisionOk info value target := by
  cases target with
  | connection => exact .inl ⟨info, rfl, trivial⟩
  | context contextId => exact .inl ⟨info, rfl, trivial⟩
  | session managed contextId revision =>
    have hid := hcontext contextId rfl
    simp only [sessionCheck, RevisionOk, hid, ne_eq, not_true_eq_false, false_or]
    split
    · next hstale =>
      refine .inr ⟨_, rfl, rfl, ?_⟩
      rintro ⟨hmanaged, -⟩
      obtain ⟨r, hr, hle⟩ := hmanaged hstale.1
      simp [hr, hle] at hstale
    · next hfresh =>
      have hmanaged : managed = true → ∃ r, value.cookieRevision = some r ∧ revision ≤ r := by
        intro hm
        simpa [hm, Option.any_eq_true] using hfresh
      cases hr : value.cookieRevision with
      | none =>
        refine .inl ⟨info, rfl, ?_, by intro _ r h; cases h⟩
        rw [← hr]
        exact hmanaged
      | some r =>
        rw [hr] at hmanaged
        obtain ⟨i, hi, hle⟩ | ⟨e, he, hdelivery, hlt⟩ := applyRevision_cases info r contextId
        · exact .inl ⟨i, hi, hmanaged, fun h r' hr' => Option.some.inj hr' ▸ hle h⟩
        · refine .inr ⟨e, he, hdelivery, ?_⟩
          rintro ⟨-, hle⟩
          exact hlt fun h => hle h r rfl

theorem metadataOk_context {value : ResponseMetadata} (h : metadataOk c value = true)
    (contextId : String) (hid : c.target.contextId = some contextId) :
    value.diagnostics.contextId = some contextId := by
  simp only [metadataOk, Bool.and_eq_true, hid, Option.all_some, beq_iff_eq] at h
  exact h.1.2

structure StepOk (c : Call) (clean : Prop) (t : State) : Prop where
  sound : t.outcome = none → Sound c t
  honest : clean ↔ Honest c t

theorem Keeps.stepOk (h : Keeps c t) : StepOk c True t :=
  ⟨h.sound, iff_of_true trivial h.honest⟩

theorem handedOut_keeps (h : Sound c s) (ho : s.outcome = none) (hp : s.stage = .handing)
    {value : ResponseMetadata} (hm : s.metadata = some value) : Keeps c (handedOut c s value) := by
  obtain ⟨hd, hquiet⟩ := h.underway hp (by simp) (by simp)
  unfold handedOut
  split
  · exact .answered honest_of_ok
  · next hmode =>
    refine .live ho (h.goto hd hquiet (by simp) ⟨trivial, value, hm, ?_⟩)
    intro hfetch
    cases hmode.symm.trans hfetch
  · by_cases hbody : bodyless c value = true
    · rw [if_pos hbody]
      exact .live ho (h.goto hd hquiet (by simp) ⟨trivial, value, hm, fun _ => hbody⟩)
    · rw [if_neg hbody]
      exact .live ho (h.goto hd hquiet (by simp) trivial)

theorem handOut_step (h : Sound c s) (ho : s.outcome = none) {info : Info}
    (hn : handOut c s m info = some t) :
    StepOk c (∀ value, s.metadata = some value → RevisionOk info value c.target) t := by
  unfold handOut at hn
  split at hn
  · next value hp hm =>
    obtain ⟨hd, hquiet⟩ := h.underway hp (by simp) (by simp)
    have hone : (∀ v, s.metadata = some v → RevisionOk info v c.target) ↔
        RevisionOk info value c.target := by
      simp [hm]
    rw [hone]
    obtain ⟨i, hi, hrevision⟩ | ⟨e, he, hdelivery, hrevision⟩ :=
      sessionCheck_cases info (metadataOk_context (h.metadata value hm))
    · rw [hi] at hn
      cases hn
      have hkeeps := handedOut_keeps h ho hp hm
      exact ⟨hkeeps.sound, iff_of_true hrevision hkeeps.honest⟩
    · rw [he] at hn
      cases hn
      refine ⟨fun hs => (by cases hs), iff_of_false hrevision ?_⟩
      exact dishonest_of_notStarted (by simpa [cancelled] using hd)
        (by simpa [cancelled] using hquiet) hdelivery
  · cases hn

theorem construct_step (h : Sound c s) (hn : construct c s m = some t) :
    StepOk c (∀ value, s.metadata = some value → byteHeaders value.headers = true) t := by
  unfold construct at hn
  split at hn
  · next value hp hm =>
    obtain ⟨hd, hquiet⟩ := h.underway hp (by simp) (by simp)
    have hone : (∀ v, s.metadata = some v → byteHeaders v.headers = true) ↔
        byteHeaders value.headers = true := by
      simp [hm]
    rw [hone]
    split at hn
    · next hbytes =>
      cases hn
      exact ⟨fun hs => (by cases hs), iff_of_true hbytes honest_of_ok⟩
    · next hbytes =>
      cases hn
      refine ⟨fun hs => (by cases hs), iff_of_false hbytes ?_⟩
      exact dishonest_of_notStarted (by simpa [cancelled] using hd)
        (by simpa [cancelled] using hquiet) rfl
  · cases hn

/-- An error reply is trusted for its own request, unless the request is called `control`. -/
theorem errorReply_honest (h : Sound c s) (hd : s.dispatched = true) (hf : s.failed = false)
    (json : Json WireError) :
    (∀ d, reportedBy json = some d → ¬ Misattributed c d) ↔
      Honest c (fail c { s with reported := reportedBy json } m
        (.sdk (transportError json.value s.diag c.usedProxy false))) := by
  obtain ⟨hid, hattempt⟩ := h.known hf (h.opaque_id hd)
  have hnorm : ∀ e, c.normalize { s with reported := reportedBy json } m (.sdk e) = e := by
    intro e
    unfold State.failed at hf
    unfold Call.normalize
    split <;> simp_all
  unfold SdkExchange.fail
  rw [hnorm]
  constructor
  · intro hclean e he hn
    cases he
    obtain ⟨code, d, hv, hdelivery, hvalid, hcorrelated⟩ :=
      transportError_notStarted (h.delivery hd) hn
    have hreported : reportedBy json = some d := by simp [reportedBy, hv]
    refine .inr ⟨d, by simpa [State.settle] using hreported, ?_, hdelivery⟩
    rw [hid, hattempt] at hcorrelated
    by_cases hcontrol : c.requestId = "control"
    · by_contra hwrong
      exact hclean d hreported ⟨hcontrol, hdelivery, hvalid, by simpa using hwrong⟩
    · exact hcorrelated (.inl hcontrol)
  · rintro hhonest d hreported ⟨hcontrol, hdelivery, hvalid, hwrong⟩
    obtain ⟨⟨code, reported⟩, hv, hr⟩ := Option.bind_eq_some_iff.mp hreported
    cases hr
    have herror := transportError_control code c.usedProxy (hid.trans hcontrol) hvalid
    rw [hv, herror] at hhonest
    obtain hn | ⟨d', hd', hok, -⟩ := hhonest _ rfl hdelivery
    · simp [State.settle, hd] at hn
    · have hsame : reportedBy json = some d' := by simpa [State.settle] using hd'
      cases hreported.symm.trans hsame
      cases hok.symm.trans hwrong

theorem errorBody_step (h : Sound c s) {size : ℕ} {json : Json WireError}
    (hn : errorBody c s m size json = some t) :
    StepOk c (s.failed = false → size ≤ c.controlLimit →
      ∀ d, reportedBy json = some d → ¬ Misattributed c d) t := by
  unfold errorBody at hn
  split at hn
  · next hp =>
    have hd : s.dispatched = true := h.started (by rw [hp]; simp)
    split at hn
    · next hsize =>
      cases hn
      refine ⟨fun hs => (by cases hs), iff_of_true ?_ (Keeps.fail_protocol h hd).honest⟩
      intro _ hle
      omega
    · next hsize =>
      split at hn
      · next hjson =>
        subst hjson
        cases hn
        refine ⟨fun hs => (by cases hs), iff_of_true ?_ h.fail_foreign⟩
        intro _ _ d hreported
        cases hreported
      · cases hn
        refine ⟨fun hs => (by cases hs), ?_⟩
        by_cases hf : s.failed = true
        · obtain ⟨f, ht⟩ := failed_iff.mp hf
          refine iff_of_true ?_ (fail_of_failed ht (h.failure f ht hd))
          intro hlive
          cases hf.symm.trans hlive
        · have hf' : s.failed = false := by simpa using hf
          rw [← errorReply_honest h hd hf' json]
          exact ⟨fun hclean => hclean hf' (Nat.le_of_not_lt hsize), fun hclean _ _ => hclean⟩
  · cases hn

/-- One step of a call that has not been answered. -/
theorem next_step (h : Sound c s) {ev : Event} (hn : next c s ev = some t) :
    StepOk c (Clean c s ev) t := by
  unfold next at hn
  split at hn
  · cases hn
  · next hnone =>
    have ho : s.outcome = none := by simpa using hnone
    obtain ⟨m, a⟩ := ev
    cases a with
    | abort timedOut kind =>
      cases hn
      refine Keeps.stepOk (.finish h ho ?_)
      exact h.delivery
    | raise thrown => exact (raise_keeps h hn).stepOk
    | dispatch queueMs => exact (dispatch_keeps h ho hn).stepOk
    | reject => exact (reject_keeps h ho hn).stepOk
    | respond head => exact (respond_keeps h ho hn).stepOk
    | errorBody size json => exact errorBody_step h hn
    | frame f => exact (frame_keeps h ho hn).stepOk
    | uploadFailed tooLarge => exact (uploadFailed_keeps h ho hn).stepOk
    | withdraw => exact (withdraw_keeps h hn).stepOk
    | handOut info => exact handOut_step h ho hn
    | take taken => exact (take_keeps h ho hn).stepOk
    | finishRead assembled => exact (finishRead_keeps h ho hn).stepOk
    | construct => exact construct_step h hn

theorem answered_stops (ho : s.outcome ≠ none) {es : List Event}
    (hr : (machine c).run s es = some t) : es = [] ∧ t = s := by
  cases es with
  | nil => exact ⟨rfl, (Option.some.inj hr).symm⟩
  | cons ev es =>
    obtain ⟨u, hu, -⟩ := (machine c).run_cons_iff.mp hr
    simp only [machine, next, Option.isSome_iff_ne_none.mpr ho, if_true] at hu
    cases hu

/-- Only the last step of a run can answer, so the answer is honest exactly if all are clean. -/
theorem run_honest (h : Sound c s) (hs : Honest c s) {es : List Event}
    (hr : (machine c).run s es = some t) :
    (machine c).Along (fun u ev _ => Clean c u ev) s es ↔ Honest c t := by
  induction es generalizing s with
  | nil =>
    cases hr
    exact iff_of_true trivial hs
  | cons ev es ih =>
    obtain ⟨u, hu, ht⟩ := (machine c).run_cons_iff.mp hr
    have hstep := next_step h hu
    have hone : (machine c).Along (fun u ev _ => Clean c u ev) s (ev :: es) ↔
        Clean c s ev ∧ (machine c).Along (fun u ev _ => Clean c u ev) u es := by
      simp [Machine.Along, hu]
    rw [hone, hstep.honest]
    by_cases ho : u.outcome = none
    · have hpending := honest_of_pending (c := c) ho
      rw [ih (hstep.sound ho) hpending ht]
      exact and_iff_right hpending
    · obtain ⟨rfl, rfl⟩ := answered_stops ho ht
      exact and_iff_left trivial

/-- Every run of every call: a rejection that says `not_started` means that the transport was
never called or that the service said so, exactly if all steps are clean. -/
theorem rejection_honest (c : Call) {es : List Event} {s : State}
    (hr : (machine c).run (machine c).initial es = some s) :
    (machine c).Along (fun u ev _ => Clean c u ev) (machine c).initial es ↔ Honest c s :=
  run_honest .initial (honest_of_pending rfl) hr

def managedCall : Call where
  mode := .request
  target := .session true "context-1" 4
  requestId := "request-1"
  attempt := 0
  head := false
  tlsProfile := "chrome_131"
  profile := some "chrome_131"
  usedProxy := false
  maxResponseBytes := 1024
  controlLimit := 1024

def serviceDiagnostics (delivery : TransportErrors.Delivery) : Diagnostics :=
  { initialDiagnostics "request-1" 0 "chrome_131" with
    phase := .upstream
    delivery := delivery
    contextId := some "context-1" }

def metadataWith (cookieRevision : Option ℕ) : ResponseMetadata where
  requestId := "request-1"
  status := 200
  headers := [("content-type", "text/plain")]
  diagnostics := serviceDiagnostics .responseStarted
  cookieRevision := cookieRevision

def untimed (a : Act) : Event := ⟨⟨0, 0⟩, a⟩

def streamHead : Head := ⟨200, some "application/vnd.ja3proxy; v=1", true⟩

def respondWith (cookieRevision : Option ℕ) : List Event :=
  [untimed (.dispatch 0), untimed (.respond streamHead),
    untimed (.frame (some (.metadata (.accepted (metadataWith cookieRevision))))),
    untimed (.handOut ⟨"context-1", 4⟩)]

def turnedAway : List Event :=
  [untimed (.dispatch 0), untimed (.respond ⟨503, some "application/json", true⟩),
    untimed (.errorBody 200 (.accepted ⟨.busy, some (serviceDiagnostics .notStarted)⟩))]

theorem rejection_honest_turned_away :
    ∃ s e, (machine managedCall).run (machine managedCall).initial turnedAway = some s ∧
      s.dispatched = true ∧ s.outcome = some (.error e) ∧ e.delivery = .notStarted ∧
      ((machine managedCall).Along (fun u ev _ => Clean managedCall u ev)
        (machine managedCall).initial turnedAway ↔ Honest managedCall s) := by
  refine ⟨_, _, rfl, rfl, rfl, rfl, ?_⟩
  exact rejection_honest managedCall rfl

/-- Metadata of a managed context without its revision: the upstream has answered, and the
session rejects the call as one that was never sent. -/
theorem missing_revision_not_started :
    ¬ ∀ (c : Call) (es : List Event) (s : State),
      (machine c).run (machine c).initial es = some s → Honest c s := by
  intro h
  have hhonest := h managedCall (respondWith none) _ rfl
  obtain hd | ⟨d, hd, -⟩ := hhonest (localError .protocolError none) rfl rfl
  · cases hd
  · cases hd

-- The same reply to a call named `control` is believed although it is about `request-1`.
example : ((machine { managedCall with requestId := "control" }).run
    (machine { managedCall with requestId := "control" }).initial turnedAway).map State.outcome =
      some (some (.error (.new .busy (serviceDiagnostics .notStarted) false none))) := rfl

def fetchCall : Call := { managedCall with mode := .fetch, target := .connection }

-- `new Response` refuses a header value that the metadata check lets through.
example : ((machine fetchCall).run (machine fetchCall).initial
    [untimed (.dispatch 0), untimed (.respond streamHead),
      untimed (.frame (some (.metadata (.accepted
        { metadataWith none with headers := [("x-price", "5 €")] })))),
      untimed (.handOut ⟨"", 0⟩), untimed .construct]).map State.outcome =
      some (some (.error (unknownError defaultDiagnostics))) := rfl

end SdkDelivery
