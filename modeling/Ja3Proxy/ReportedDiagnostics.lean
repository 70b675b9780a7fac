import Ja3Proxy.SdkExchange
import Ja3Proxy.SdkRequest

/-! Every error that a call of the SDK ends with, and every completion, carries diagnostics that
the SDK's own check accepts. -/
namespace ReportedDiagnostics

open ExceptRules SdkErrors SdkExchange TransitionRuns

variable {c : Call} {s t : State} {m : Meter} {e : SdkError} {d : Diagnostics}

/-- `diagnostics(value)` without a correlation. -/
def Valid (d : Diagnostics) : Prop := diagnosticsOk d none = true

theorem profileName_initial (requestId : String) (attempt : ℕ) (tlsProfile : String) :
    profileName (initialDiagnostics requestId attempt tlsProfile).tlsProfile = true := by
  have hunknown : profileName "unknown" = true := by decide
  by_cases h : profileName tlsProfile = true <;> simp [initialDiagnostics, h, hunknown]

theorem valid_initial (requestId : String) (attempt : ℕ) (tlsProfile : String) :
    Valid (initialDiagnostics requestId attempt tlsProfile) := by
  have hlocal : opaqueText "local" = true := by decide
  have hid : opaqueText (initialDiagnostics requestId attempt tlsProfile).requestId = true := by
    by_cases h : opaqueText requestId = true <;> simp [initialDiagnostics, h, hlocal]
  have hprofile := profileName_initial requestId attempt tlsProfile
  simp only [Valid, diagnosticsOk, hid, hprofile]
  simp [initialDiagnostics]

theorem valid_localError (code : TransportErrors.ErrorCode) (kind : Option FailureKind) :
    Valid (localError code kind).diagnostics := valid_initial "local" 0 "unknown"

theorem valid_updateLocal (h : Valid s.diag) (m : Meter) : Valid (s.updateLocal m) := h

/-- Only a request that was not started may have no profile. -/
theorem profileName_of_sent (h : Valid d) (hd : d.delivery ≠ .notStarted) :
    profileName d.tlsProfile = true := by
  simp only [Valid, diagnosticsOk, Bool.and_eq_true] at h
  have hprofile := h.1.1.2
  split at hprofile
  · exact absurd (beq_iff_eq.mp hprofile) hd
  · exact hprofile

theorem valid_transportError {value : Option WireError} {fallback : Diagnostics}
    (h : Valid fallback) (usedProxy requireDiagnostics : Bool) :
    Valid (transportError value fallback usedProxy requireDiagnostics).diagnostics := by
  unfold transportError
  split
  · exact h
  · split <;> exact h
  · next code d =>
    split
    · exact h
    · split
      · exact h
      · by_cases hd : diagnosticsOk d none = true
        · rw [if_pos hd]
          exact hd
        · rw [if_neg hd]
          exact h

def Reports : Except SdkError Diagnostics → Prop
  | .error e => Valid e.diagnostics
  | .ok d => Valid d

def StageReports : Stage → Prop
  | .rejecting e => Valid e.diagnostics
  | .reading (some (.failed e)) => Valid e.diagnostics
  | .reading (some (.complete d)) => Valid d
  | _ => True

def Accepted (value : ResponseMetadata) : Prop :=
  ∃ requestId attempt, responseMetadataOk value requestId attempt = true

theorem Accepted.valid {value : ResponseMetadata} (h : Accepted value) :
    Valid value.diagnostics := by
  obtain ⟨requestId, attempt, hok⟩ := h
  simp only [responseMetadataOk, Bool.and_eq_true] at hok
  exact diagnosticsOk_none hok.1.2

theorem Accepted.status {value : ResponseMetadata} (h : Accepted value) :
    200 ≤ value.status ∧ value.status ≤ 599 := by
  obtain ⟨requestId, attempt, hok⟩ := h
  simp only [responseMetadataOk, Bool.and_eq_true, decide_eq_true_eq] at hok
  exact ⟨hok.1.1.1.1.2, hok.1.1.1.2⟩

structure Reportable (s : State) : Prop where
  diag : Valid s.diag
  named : s.terminal = none → profileName s.diag.tlsProfile = true
  metadata : ∀ value, s.metadata = some value → Accepted value
  terminal : ∀ r, s.terminal = some r → Reports r
  stage : StageReports s.stage
  outcome : ∀ e, s.outcome = some (.error e) → Valid e.diagnostics

/-- The preparation of a call throws errors of the SDK, whose diagnostics are its own. -/
def Proper (ev : Event) : Prop :=
  ∀ e, ev.act = .raise (.sdk e) → Valid e.diagnostics

/-- `executeStream` has checked the context of the call. -/
def Checked (c : Call) : Prop := ∀ id ∈ c.target.contextId, opaqueText id = true

theorem reportable_initial (c : Call) : Reportable (.initial c) where
  diag := valid_initial _ _ _
  named _ := profileName_initial _ _ _
  metadata _ h := by cases h
  terminal _ h := by cases h
  stage := trivial
  outcome _ h := by cases h

theorem Reportable.finish (h : Reportable s) (he : Valid e.diagnostics) :
    Reportable (s.finish e) := by
  unfold State.finish
  by_cases hs : s.terminal.isSome = true
  · rw [if_pos hs]
    exact h
  · rw [if_neg hs]
    refine ⟨he, ?_, h.metadata, ?_, h.stage, h.outcome⟩
    · intro hterminal
      cases hterminal
    · rintro r ⟨⟩
      exact he

theorem Reportable.cancelled (h : Reportable s) : Reportable (SdkExchange.cancelled c s m) := by
  have he : Valid (SdkError.new .cancelled (s.updateLocal m) c.usedProxy none).diagnostics :=
    valid_updateLocal h.diag m
  exact h.finish he

theorem Reportable.answered (h : Reportable s) : Reportable (s.settle (.ok ())) :=
  ⟨h.diag, h.named, h.metadata, h.terminal, h.stage, fun e he => by cases he⟩

theorem Reportable.rejected (h : Reportable s) (he : Valid e.diagnostics) :
    Reportable (s.settle (.error e)) := by
  refine ⟨h.diag, h.named, h.metadata, h.terminal, h.stage, ?_⟩
  rintro e' ⟨⟩
  exact he

/-- A step to another stage. -/
theorem Reportable.goto (h : Reportable s) {stage : Stage} (hs : StageReports stage) :
    Reportable { s with stage := stage } :=
  ⟨h.diag, h.named, h.metadata, h.terminal, hs, h.outcome⟩

def Throws (thrown : Thrown) : Prop := ∀ e, thrown = .sdk e → Valid e.diagnostics

theorem throws_foreign : Throws .foreign := by
  intro e he
  cases he

theorem throws_sdk (he : Valid e.diagnostics) : Throws (.sdk e) := by
  rintro e' ⟨⟩
  exact he

theorem valid_normalize (h : Reportable s) {thrown : Thrown} (ht : Throws thrown) :
    Valid (c.normalize s m thrown).diagnostics := by
  unfold Call.normalize
  split
  · next failure heq => exact h.terminal _ heq
  · exact ht _ rfl
  · exact h.diag

theorem Reportable.fail (h : Reportable s) {thrown : Thrown} (ht : Throws thrown) :
    Reportable (SdkExchange.fail c s m thrown) := by
  have hv := valid_normalize (c := c) (m := m) h ht
  exact (h.finish hv).rejected hv

theorem Reportable.protocol (h : Reportable s) (hd : Valid d) :
    Reportable (SdkExchange.fail c s m (.sdk (protocolError c d))) :=
  h.fail (throws_sdk hd)

theorem dispatch_reportable (h : Reportable s) (hc : Checked c) {queueMs : ℕ}
    (hn : dispatch c s queueMs = some t) : Reportable t := by
  unfold dispatch at hn
  split at hn
  · next hg =>
    cases hn
    have hd := h.diag
    have hprofile := h.named (by simpa using hg.2.1)
    refine ⟨?_, fun _ => hprofile, h.metadata, h.terminal, trivial, h.outcome⟩
    have hnonempty : ¬ s.diag.tlsProfile = "" := by
      intro heq
      rw [heq] at hprofile
      exact absurd hprofile (by decide)
    have hcontext : c.target.contextId.all opaqueText = true := by
      cases hid : c.target.contextId with
      | none => rfl
      | some id => exact hc id (by rw [hid]; rfl)
    simp only [Valid, diagnosticsOk, Bool.and_eq_true] at hd ⊢
    exact ⟨⟨⟨⟨hd.1.1.1.1, rfl⟩, by simp [hnonempty, hprofile]⟩, hd.1.2⟩, hcontext⟩
  · cases hn

theorem respond_reportable (h : Reportable s) {head : Head} (hn : respond c s m head = some t) :
    Reportable t := by
  unfold respond at hn
  split at hn
  · split at hn
    · cases hn
      exact h.goto trivial
    · split at hn <;> cases hn
      · exact h.goto trivial
      · exact h.protocol h.diag
  · cases hn

theorem errorBody_reportable (h : Reportable s) {size : ℕ} {json : Json WireError}
    (hn : errorBody c s m size json = some t) : Reportable t := by
  unfold errorBody at hn
  split at hn
  · split at hn
    · cases hn
      exact h.protocol h.diag
    · split at hn <;> cases hn
      · exact h.fail throws_foreign
      · have hr : Reportable { s with reported := reportedBy json } :=
          ⟨h.diag, h.named, h.metadata, h.terminal, h.stage, h.outcome⟩
        exact hr.fail (throws_sdk (valid_transportError h.diag _ _))
  · cases hn

theorem firstFrame_reportable (h : Reportable s) (f : Option Frame) :
    Reportable (firstFrame c s m f) := by
  unfold firstFrame
  split
  · split
    · exact h.fail throws_foreign
    · exact ⟨h.diag, h.named, h.metadata, h.terminal, valid_transportError h.diag _ _, h.outcome⟩
  · exact h.fail throws_foreign
  · next value =>
    split
    · exact h.protocol h.diag
    · next hok =>
      split
      · exact h.fail throws_foreign
      · have haccepted : responseMetadataOk value c.requestId c.attempt = true := by
          simp only [metadataOk, Bool.not_eq_true', Bool.not_eq_false, Bool.and_eq_true] at hok
          exact hok.1.1
        have hvalue : Accepted value := ⟨_, _, haccepted⟩
        have hsent : value.diagnostics.delivery ≠ .notStarted := by
          rw [responseMetadata_delivery haccepted]
          simp
        refine ⟨hvalue.valid, fun _ => profileName_of_sent hvalue.valid hsent, ?_, h.terminal,
          trivial, h.outcome⟩
        rintro v ⟨⟩
        exact hvalue
  · exact h.protocol h.diag

theorem afterError_reportable (h : Reportable s) (he : Valid e.diagnostics) (f : Option Frame) :
    Reportable (afterError c s m e f) := by
  cases f with
  | none => exact h.fail (throws_sdk he)
  | some _ => exact h.protocol h.diag

theorem bodyFrame_reportable (h : Reportable s) (metadata : ResponseMetadata) (f : Option Frame) :
    Reportable (bodyFrame c s m metadata f) := by
  have hlocal := valid_updateLocal h.diag m
  unfold bodyFrame
  split
  · split
    · exact h.finish hlocal
    · split
      · exact h.finish hlocal
      · exact ⟨h.diag, h.named, h.metadata, h.terminal, trivial, h.outcome⟩
  · split
    · exact h.finish (valid_normalize h throws_foreign)
    · split
      · exact h.goto (valid_transportError hlocal _ _)
      · exact h.finish hlocal
  · exact h.finish (valid_normalize h throws_foreign)
  · split
    · next hok =>
      simp only [completeOk, Bool.and_eq_true] at hok
      exact h.goto (diagnosticsOk_none hok.1.1.1.1.1)
    · exact h.finish hlocal
  · exact h.finish hlocal

theorem afterLast_reportable (h : Reportable s) {last : Last}
    (hl : StageReports (.reading (some last))) (f : Option Frame) :
    Reportable (afterLast c s m last f) := by
  have hlocal := valid_updateLocal h.diag m
  cases f with
  | some _ => cases last <;> exact h.finish hlocal
  | none =>
    cases last with
    | failed e => exact h.finish hl
    | complete d =>
      refine ⟨hl, ?_, h.metadata, ?_, h.stage, h.outcome⟩
      · intro hterminal
        cases hterminal
      · rintro r ⟨⟩
        exact hl

theorem frame_reportable (h : Reportable s) {f : Option Frame} (hn : frame c s m f = some t) :
    Reportable t := by
  unfold frame at hn
  split at hn
  · cases hn
    exact firstFrame_reportable h f
  · next e hstage =>
    cases hn
    have he := h.stage
    rw [hstage] at he
    exact afterError_reportable h he f
  · next metadata hstage _ =>
    split at hn
    · cases hn
      exact h
    · split at hn
      · cases hn
        exact bodyFrame_reportable h metadata f
      · next last' =>
        cases hn
        have hl := h.stage
        rw [hstage] at hl
        exact afterLast_reportable h hl f
  · cases hn

theorem reject_reportable (h : Reportable s) (hn : reject c s m = some t) : Reportable t := by
  unfold reject at hn
  split at hn
  case h_5 =>
    cases hn
    exact h.finish (valid_normalize h throws_foreign)
  case h_6 => cases hn
  all_goals
    cases hn
    exact h.fail throws_foreign

theorem sessionCheck_valid {info : Info} {value : ResponseMetadata} {target : Target}
    (h : sessionCheck info value target = .error e) : Valid e.diagnostics := by
  cases target with
  | session managed contextId revision =>
    simp only [sessionCheck] at h
    split at h
    · exact Except.error.inj h ▸ valid_localError _ _
    · split at h
      · unfold applyRevision at h
        split at h
        · cases h
        · split at h
          · exact Except.error.inj h ▸ valid_localError _ _
          · cases h
      · cases h
  | _ => cases h

theorem handOut_reportable (h : Reportable s) {info : Info} (hn : handOut c s m info = some t) :
    Reportable t := by
  unfold handOut at hn
  split at hn
  · next value hvalue =>
    split at hn
    · cases hn
      unfold handedOut
      split
      · exact h.answered
      · exact h.goto trivial
      · refine h.goto ?_
        split <;> trivial
    · next e hcheck =>
      cases hn
      exact h.cancelled.rejected (sessionCheck_valid hcheck)
  · cases hn

theorem withdraw_reportable (h : Reportable s) (hn : withdraw c s m = some t) : Reportable t := by
  unfold withdraw at hn
  split at hn
  · next failure _ hterminal =>
    cases hn
    exact h.fail (throws_sdk (h.terminal _ hterminal))
  · cases hn

theorem valid_safeError {thrown : Thrown} (ht : Throws thrown) (hd : Valid d) :
    Valid (safeError thrown d).diagnostics := by
  cases thrown with
  | foreign => exact hd
  | sdk e => exact ht e rfl

theorem bufferFailed_reportable (h : Reportable s) {value : ResponseMetadata} {thrown : Thrown}
    (ht : Throws thrown) : Reportable (bufferFailed c s m value thrown) := by
  unfold bufferFailed
  split
  · exact h.fail (throws_sdk (valid_updateLocal h.diag m))
  · next e hterminal =>
    exact h.rejected (h.terminal _ hterminal)
  · next d hterminal => exact h.rejected (valid_safeError ht (h.terminal _ hterminal))

theorem take_reportable (h : Reportable s) {taken : Taken} (hn : take c s m taken = some t) :
    Reportable t := by
  unfold take at hn
  split at hn
  · next value _ hmetadata =>
    split at hn <;> cases hn
    · exact h.cancelled.rejected (valid_localError _ _)
    · exact h.goto trivial
    · exact bufferFailed_reportable h (throws_sdk (h.metadata _ hmetadata).valid)
    · exact bufferFailed_reportable h throws_foreign
  · cases hn

theorem finishRead_reportable (h : Reportable s) {assembled : Bool}
    (hn : finishRead c s m assembled = some t) : Reportable t := by
  unfold finishRead at hn
  split at hn
  · split at hn <;> cases hn
    · exact h.goto trivial
    · split
      · exact h.answered
      · exact bufferFailed_reportable h throws_foreign
  · next e _ _ hterminal =>
    have he : Valid e.diagnostics := h.terminal _ hterminal
    split at hn <;> cases hn
    · exact h.rejected he
    · exact bufferFailed_reportable h (throws_sdk he)
  · cases hn

theorem construct_reportable (h : Reportable s) (hn : construct c s m = some t) : Reportable t := by
  unfold construct at hn
  split at hn
  · split at hn <;> cases hn
    · exact h.answered
    · exact h.cancelled.rejected (valid_safeError throws_foreign (valid_initial _ _ _))
  · cases hn

theorem act_reportable (h : Reportable s) (hc : Checked c) {ev : Event} (hev : Proper ev)
    (hn : act c s ev.meter ev.act = some t) : Reportable t := by
  obtain ⟨m, a⟩ := ev
  cases a with
  | abort timedOut kind =>
    cases hn
    exact h.finish h.diag
  | raise thrown =>
    simp only [act, raise] at hn
    split at hn <;> cases hn
    refine h.fail fun e he => hev e ?_
    rw [he]
  | dispatch queueMs => exact dispatch_reportable h hc hn
  | reject => exact reject_reportable h hn
  | respond head => exact respond_reportable h hn
  | errorBody size json => exact errorBody_reportable h hn
  | frame f => exact frame_reportable h hn
  | uploadFailed tooLarge =>
    simp only [act, uploadFailed] at hn
    split at hn <;> cases hn
    exact h.finish h.diag
  | withdraw => exact withdraw_reportable h hn
  | handOut info => exact handOut_reportable h hn
  | take taken => exact take_reportable h hn
  | finishRead assembled => exact finishRead_reportable h hn
  | construct => exact construct_reportable h hn

theorem run_reportable (hc : Checked c) {es : List Event} (hes : ∀ ev ∈ es, Proper ev)
    (hrun : (machine c).run (.initial c) es = some s) : Reportable s := by
  refine Machine.run_preserves_along (C := fun _ ev _ => Proper ev) ?_ (reportable_initial c)
    (Machine.along_of_mem fun ev hev _ _ => hes ev hev) hrun
  intro s ev t h hev hn
  simp only [machine, next] at hn
  split at hn
  · cases hn
  · exact act_reportable h hc hev hn

theorem checkOptions_valid (parseUrl : SdkRequest.ParseUrl) (defaultMaximum : ℕ)
    (hint : Option SdkRequest.ConnectionSpec) (o : SdkRequest.Options) :
    FailsWith (fun e => Valid e.diagnostics)
      (SdkRequest.checkOptions parseUrl defaultMaximum hint o) := by
  have hinvalid : Valid (SdkRequest.invalidInput (o.diag (o.connection <|> hint))
      (SdkRequest.Options.usedProxy (o.connection <|> hint))).diagnostics := valid_initial _ _ _
  unfold SdkRequest.checkOptions
  refine .bind (.rejectIf hinvalid) fun _ => .bind (.rejectIf (valid_localError _ _)) fun _ =>
    .bind (.rejectIf hinvalid) fun _ => .bind (.rejectIf hinvalid) fun _ => ?_
  split
  · exact .error hinvalid
  · exact .error hinvalid
  · exact .bind (.rejectIf hinvalid) fun _ => .bind (.rejectIf hinvalid) fun _ => .ok _

theorem validateConnection_valid (parseUrl : SdkRequest.ParseUrl)
    (caps : ServiceCapabilities.Capabilities) (spec : SdkRequest.ConnectionSpec) :
    FailsWith (fun e => Valid e.diagnostics)
      (SdkRequest.validateConnection parseUrl caps spec) := by
  have hcontrol := valid_initial "control" 0 spec.identity.tlsProfile
  unfold SdkRequest.validateConnection
  refine .bind (.rejectIf hcontrol) fun _ => .bind (.rejectIf hcontrol) fun _ => ?_
  split
  · exact .error hcontrol
  · exact .rejectIf hcontrol
  · split
    · exact .error hcontrol
    · exact .rejectIf hcontrol

theorem describe_valid (parseUrl : SdkRequest.ParseUrl)
    (stringify : SdkRequest.Wire → FrameReader.Bytes) (caps : ServiceCapabilities.Capabilities)
    (hint : Option SdkRequest.ConnectionSpec) (o : SdkRequest.Options)
    (checked : SdkRequest.Checked)
    (hd : Valid d) (timeoutMs elapsed : ℕ) :
    FailsWith (fun e => Valid e.diagnostics)
      (SdkRequest.describe parseUrl stringify caps hint o checked d timeoutMs elapsed) := by
  unfold SdkRequest.describe
  refine .bind ?_ fun _ => .bind (.rejectIf hd) fun _ => .bind (.rejectIf hd) fun _ =>
    .bind (.rejectIf hd) fun _ => .bind (.rejectIf hd) fun _ => .ok _
  split
  · exact validateConnection_valid parseUrl caps _
  · exact .ok _

/-- What the checks of `executeStream` throw: its options are refused, or they exceed what the
service is capable of. -/
inductive Prepares (parseUrl : SdkRequest.ParseUrl) (o : SdkRequest.Options) (e : SdkError) : Prop
  | options {defaultMaximum : ℕ} {hint : Option SdkRequest.ConnectionSpec}
      (h : SdkRequest.checkOptions parseUrl defaultMaximum hint o = .error e)
  | capabilities {stringify : SdkRequest.Wire → FrameReader.Bytes}
      {caps : ServiceCapabilities.Capabilities} {hint : Option SdkRequest.ConnectionSpec}
      {checked : SdkRequest.Checked} {d : Diagnostics} {timeoutMs elapsed : ℕ} (hd : Valid d)
      (h :
        SdkRequest.describe parseUrl stringify caps hint o checked d timeoutMs elapsed = .error e)

variable {parseUrl : SdkRequest.ParseUrl} {o : SdkRequest.Options}

theorem Prepares.valid (h : Prepares parseUrl o e) : Valid e.diagnostics := by
  cases h with
  | options h => exact checkOptions_valid _ _ _ _ _ h
  | capabilities hd h => exact describe_valid _ _ _ _ _ _ hd _ _ _ h

theorem Prepares.proper (h : Prepares parseUrl o e) (m : Meter) : Proper ⟨m, .raise (.sdk e)⟩ := by
  rintro e' ⟨⟩
  exact h.valid

/-- The options that pass name a proper context, if they name one. -/
theorem checked_of_options {defaultMaximum : ℕ} {hint : Option SdkRequest.ConnectionSpec}
    {checked : SdkRequest.Checked}
    (h : SdkRequest.checkOptions parseUrl defaultMaximum hint o = .ok checked)
    (hcontext : c.target.contextId = o.contextId) : Checked c := by
  intro id hid
  rw [hcontext] at hid
  exact (SdkRequest.checkOptions_ok h).contextId id hid

end ReportedDiagnostics
