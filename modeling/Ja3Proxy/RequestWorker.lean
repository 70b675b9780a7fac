import Ja3Proxy.RequestRecord
import Ja3Proxy.TransitionRuns

/-! The worker task of one request (`request_handler`, `execute`, `transfer`) against every
signal that can stop it. A step is what runs between two accesses to shared state. Stop
signals strike only where the future awaits; nothing can fall between two steps of a stage
that does not await. -/
namespace RequestWorker

open TransportErrors RequestRecord TransitionRuns

inductive Stage where
  /-- The record exists and `Admission::enter` is about to be called. -/
  | registered
  /-- The task was spawned and owns its `ExecutionGuard`, but was never polled. -/
  | spawned
  | queueing
  | admitted
  | lookup
  | located (profile : Option String)
  | cookies
  | request
  | headers
  | dispatch
  /-- `try_join!` of the upload and `send()`, which has not returned. -/
  | exchange (uploaded : Bool)
  /-- `send()` returned a response that is not recorded yet. -/
  | answered (uploaded : Bool)
  /-- The response is recorded and the upload still runs. -/
  | uploading
  | absorb
  | opening
  | forward
  /-- The execution future has stopped with this result. -/
  | stopped (error : Option TransportError)
  | closing (error : Option TransportError)
  | reported
  /-- The task was aborted: its future is dropped and the guard is next. -/
  | dropped
  | gone
  deriving DecidableEq, Repr

inductive Event where
  | refuse (error : TransportError)
  | spawn
  | begin
  | permit
  | admission
  | owner (profile : Option String)
  | locate
  | access
  | builder
  | apply (revision : Option ℕ)
  | dispatch
  | uploadBytes (count : ℕ)
  | uploadDone
  | pollSend
  | sendFailed (error : TransportError)
  | sendReturned
  | recordResponse
  | absorbed (revision : Option ℕ)
  | opened
  | chunk (count : ℕ)
  | complete
  | fail (error : TransportError)
  | recordBody
  | report
  | dropGuard
  | cancelRequest
  | dropResponse
  | contextCancel
  | tick (elapsed : ℕ)
  | stopCancelled
  | stopDeadline
  | stopContext
  | abort
  deriving DecidableEq, Repr

/-- `polls` counts the polls of `send()` and `answered` says whether one returned a response. -/
structure World where
  record : Record
  clock : ℕ
  queued : ℕ
  deadline : ℕ
  cancelled : Bool
  contextCancelled : Bool
  stage : Stage
  polls : ℕ
  answered : Bool
  deriving DecidableEq, Repr

structure Setup where
  started : ℕ
  queuedAt : ℕ
  queued : ℕ
  clock : ℕ
  timeoutMs : ℕ
  diagnostics : Diagnostics
  phase : diagnostics.phase = .queued
  delivery : diagnostics.delivery = .notStarted

def World.initial (s : Setup) : World where
  record := ⟨s.started, s.queuedAt, s.diagnostics, none, none⟩
  clock := s.clock
  queued := s.queued
  deadline := s.started + s.timeoutMs * 1000000
  cancelled := false
  contextCancelled := false
  stage := .registered
  polls := 0
  answered := false

def World.goto (w : World) (stage : Stage) : World := { w with stage := stage }

def World.update (w : World) (stage : Stage) (f : Diagnostics → Diagnostics) : World :=
  { w with record := w.record.update f, stage := stage }

def World.finish (w : World) (stage : Stage) (error : Option TransportError) : World :=
  { w with record := (w.record.finish w.clock error).1, stage := stage }

def Stage.awaits : Stage → Bool
  | .spawned | .queueing | .lookup | .cookies | .request | .exchange _ | .uploading
  | .opening | .forward => true
  | _ => false

def Stage.inTransfer : Stage → Bool
  | .cookies | .request | .exchange _ | .uploading | .opening | .forward => true
  | _ => false

def Stage.canFail : Stage → Bool
  | .lookup | .cookies | .request | .headers | .exchange _ | .uploading | .absorb
  | .opening | .forward => true
  | _ => false

def markClient (profile : Option String) (d : Diagnostics) : Diagnostics :=
  match profile with
  | some profile => { d with tlsProfile := profile, clientReused := none }
  | none => { d with clientReused := some false }

def work (w : World) : Event → Option World
  | .refuse e => if w.stage = .registered then some (w.finish .gone (some e)) else none
  | .spawn => if w.stage = .registered then some (w.goto .spawned) else none
  | .begin => if w.stage = .spawned then some (w.goto .queueing) else none
  | .permit => if w.stage = .queueing then some (w.goto .admitted) else none
  | .admission =>
    if w.stage = .admitted then some (w.update .lookup fun d =>
      { d with queueMs := elapsedMs w.queued w.clock, phase := .preparing })
    else none
  | .owner profile => if w.stage = .lookup then some (w.goto (.located profile)) else none
  | .locate =>
    match w.stage with
    | .located profile => some (w.update .cookies (markClient profile))
    | _ => none
  | .access => if w.stage = .cookies then some (w.goto .request) else none
  | .builder => if w.stage = .request then some (w.goto .headers) else none
  | .apply revision =>
    if w.stage = .headers then some (w.update .dispatch fun d =>
      match revision with
      | some revision => { d with cookieRevision := some revision }
      | none => d)
    else none
  | .dispatch =>
    if w.stage = .dispatch then some (w.update (.exchange false) markDispatched) else none
  | .uploadBytes count =>
    match w.stage with
    | .exchange false => some (w.update (.exchange false) fun d => { d with requestBytes := count })
    | .uploading => some (w.update .uploading fun d => { d with requestBytes := count })
    | _ => none
  | .uploadDone =>
    match w.stage with
    | .exchange false => some (w.goto (.exchange true))
    | .uploading => some (w.goto .absorb)
    | _ => none
  | .pollSend =>
    match w.stage with
    | .exchange _ => some { w with polls := w.polls + 1 }
    | _ => none
  | .sendFailed e =>
    match w.stage with
    | .exchange _ => some { w with polls := w.polls + 1, stage := .stopped (some e) }
    | _ => none
  | .sendReturned =>
    match w.stage with
    | .exchange uploaded =>
      some { w with polls := w.polls + 1, answered := true, stage := .answered uploaded }
    | _ => none
  | .recordResponse =>
    match w.stage with
    | .answered uploaded =>
      some (w.update (if uploaded then .absorb else .uploading)
        (markResponse w.record.started w.clock))
    | _ => none
  | .absorbed revision =>
    if w.stage = .absorb then some (w.update .opening fun d =>
      { d with phase := .body, cookieRevision := revision })
    else none
  | .opened => if w.stage = .opening then some (w.goto .forward) else none
  | .chunk count =>
    if w.stage = .forward then some (w.update .forward fun d => { d with responseBytes := count })
    else none
  | .complete => if w.stage = .forward then some (w.goto (.stopped none)) else none
  | .fail e => if w.stage.canFail then some (w.goto (.stopped (some e))) else none
  | .recordBody =>
    match w.stage with
    | .stopped e => some (w.update (.closing e) (markBody w.record.started w.clock))
    | _ => none
  | .report =>
    match w.stage with
    | .closing e => some (w.finish .reported e)
    | _ => none
  | .dropGuard =>
    match w.stage with
    | .reported | .dropped =>
      some { w.finish .gone (some (.fromCode .cancelled)) with cancelled := true }
    | _ => none
  | _ => none

def signal (w : World) : Event → Option World
  | .cancelRequest => some { w with cancelled := true }
  | .dropResponse => some { w with cancelled := true }
  | .contextCancel => some { w with contextCancelled := true }
  | .tick elapsed => some { w with clock := w.clock + elapsed }
  | .stopCancelled =>
    if w.stage.awaits && w.cancelled then
      some (w.goto (.stopped (some (.fromCode .cancelled))))
    else none
  | .stopDeadline =>
    if w.stage.awaits && w.deadline ≤ w.clock then
      some (w.goto (.stopped (some (.fromCode .timeout))))
    else none
  | .stopContext =>
    if w.stage.inTransfer && w.contextCancelled then
      some (w.goto (.stopped (some (.fromCode .contextNotFound))))
    else none
  | .abort => if w.stage.awaits then some (w.goto .dropped) else none
  | _ => none

def next (w : World) (e : Event) : Option World := (work w e).orElse fun _ => signal w e

def machine (s : Setup) : Machine World Event := ⟨.initial s, next⟩

def Stage.delivery : Stage → Option Delivery
  | .registered | .spawned | .queueing | .admitted | .lookup | .located _ | .cookies
  | .request | .headers | .dispatch => some .notStarted
  | .exchange _ | .answered _ => some .possiblySent
  | .uploading | .absorb | .opening | .forward => some .responseStarted
  | .stopped _ | .closing _ | .reported | .dropped | .gone => none

def Stage.ended : Stage → Bool
  | .reported | .gone => true
  | _ => false

/-- A response returned by `send()` is still to be recorded. -/
def Stage.owesResponse : Stage → Bool
  | .answered _ => true
  | _ => false

def Stage.ordinary (s : Stage) : Bool := !s.ended && !s.owesResponse

inductive Effect (w v : World) : Prop where
  /-- Flags and the clock. -/
  | signal (record : v.record = w.record) (stage : v.stage = w.stage)
      (polls : v.polls = w.polls) (answered : v.answered = w.answered)
  /-- Progress that leaves the delivery as it is. -/
  | note (f : Diagnostics → Diagnostics) (keeps : ∀ d, (f d).delivery = d.delivery)
      (record : v.record = w.record.update f) (polls : v.polls = w.polls)
      (answered : v.answered = w.answered) (source : w.stage.ordinary = true)
      (target : v.stage.ordinary = true)
      (delivery : ∀ d, v.stage.delivery = some d → w.stage.delivery = some d)
  | dispatch (f : Diagnostics → Diagnostics) (marks : ∀ d, (f d).delivery = .possiblySent)
      (record : v.record = w.record.update f) (polls : v.polls = w.polls)
      (answered : v.answered = w.answered) (source : w.stage = .dispatch)
      (target : v.stage = .exchange false)
  | poll (uploaded : Bool) (record : v.record = w.record) (answered : v.answered = w.answered)
      (source : w.stage = .exchange uploaded) (target : v.stage.ordinary = true)
      (delivery : ∀ d, v.stage.delivery = some d → d = .possiblySent)
  | returned (uploaded : Bool) (record : v.record = w.record) (answered : v.answered = true)
      (source : w.stage = .exchange uploaded) (target : v.stage = .answered uploaded)
  | response (uploaded : Bool) (f : Diagnostics → Diagnostics)
      (marks : ∀ d, (f d).delivery = .responseStarted) (record : v.record = w.record.update f)
      (polls : v.polls = w.polls) (answered : v.answered = w.answered)
      (source : w.stage = .answered uploaded) (target : v.stage.ordinary = true)
      (delivery : v.stage.delivery = some .responseStarted)
  | finish (error : Option TransportError) (record : v.record = (w.record.finish w.clock error).1)
      (polls : v.polls = w.polls) (answered : v.answered = w.answered)
      (source : w.stage.owesResponse = false) (target : v.stage.ended = true)

theorem effect_goto {w : World} {s : Stage} (hw : w.stage.ordinary = true)
    (hs : s.ordinary = true) (hd : ∀ d, s.delivery = some d → w.stage.delivery = some d) :
    Effect w (w.goto s) :=
  .note id (fun _ => rfl) (by simp [World.goto, Record.update]) rfl rfl hw hs hd

theorem effect_update {w : World} {s : Stage} {f : Diagnostics → Diagnostics}
    (hf : ∀ d, (f d).delivery = d.delivery) (hw : w.stage.ordinary = true)
    (hs : s.ordinary = true) (hd : ∀ d, s.delivery = some d → w.stage.delivery = some d) :
    Effect w (w.update s f) :=
  .note f hf rfl rfl rfl hw hs hd

/-- A step between two named stages. -/
private theorem effect_between {w v : World} {a b : Stage}
    (h : (if w.stage = a then some (w.goto b) else none) = some v)
    (hab : (a.ordinary && b.ordinary) = true)
    (hd : b.delivery = a.delivery ∨ b.delivery = none) : Effect w v := by
  rw [Option.ite_none_right_eq_some, Option.some.injEq] at h
  rw [Bool.and_eq_true] at hab
  obtain ⟨hw, rfl⟩ := h
  refine effect_goto (by rw [hw]; exact hab.1) hab.2 ?_
  intro d hbd
  rcases hd with hd | hd
  · rw [hw, ← hd, hbd]
  · rw [hd] at hbd
    cases hbd

private theorem effect_noted {w v : World} {a b : Stage} {f : Diagnostics → Diagnostics}
    (h : (if w.stage = a then some (w.update b f) else none) = some v)
    (hf : ∀ d, (f d).delivery = d.delivery) (hab : (a.ordinary && b.ordinary) = true)
    (hd : b.delivery = a.delivery) : Effect w v := by
  rw [Option.ite_none_right_eq_some, Option.some.injEq] at h
  rw [Bool.and_eq_true] at hab
  obtain ⟨hw, rfl⟩ := h
  exact effect_update hf (by rw [hw]; exact hab.1) hab.2 fun d hbd => by rw [hw, ← hd, hbd]

theorem work_effect {w v : World} {e : Event} (h : work w e = some v) : Effect w v := by
  cases e with
  | refuse e =>
    simp only [work, Option.ite_none_right_eq_some, Option.some.injEq] at h
    obtain ⟨hw, rfl⟩ := h
    exact .finish _ rfl rfl rfl (by rw [hw]; rfl) rfl
  | spawn => exact effect_between h rfl (Or.inl rfl)
  | begin => exact effect_between h rfl (Or.inl rfl)
  | permit => exact effect_between h rfl (Or.inl rfl)
  | admission => exact effect_noted h (fun _ => rfl) rfl rfl
  | owner profile => exact effect_between h rfl (Or.inl rfl)
  | locate =>
    simp only [work] at h
    split at h
    · rename_i profile hw
      obtain rfl := Option.some.inj h
      exact effect_update (by cases profile <;> simp [markClient]) (by rw [hw]; rfl) rfl
        (by simp [hw, Stage.delivery])
    · cases h
  | access => exact effect_between h rfl (Or.inl rfl)
  | builder => exact effect_between h rfl (Or.inl rfl)
  | apply revision => exact effect_noted h (by cases revision <;> simp) rfl rfl
  | dispatch =>
    simp only [work, Option.ite_none_right_eq_some, Option.some.injEq] at h
    obtain ⟨hw, rfl⟩ := h
    exact .dispatch markDispatched (fun _ => rfl) rfl rfl rfl hw rfl
  | uploadBytes count =>
    simp only [work] at h
    split at h
    · rename_i hw
      obtain rfl := Option.some.inj h
      exact effect_update (fun _ => rfl) (by rw [hw]; rfl) rfl (by simp [hw, Stage.delivery])
    · rename_i hw
      obtain rfl := Option.some.inj h
      exact effect_update (fun _ => rfl) (by rw [hw]; rfl) rfl (by simp [hw, Stage.delivery])
    · cases h
  | uploadDone =>
    simp only [work] at h
    split at h
    · rename_i hw
      obtain rfl := Option.some.inj h
      exact effect_goto (by rw [hw]; rfl) rfl (by simp [hw, Stage.delivery])
    · rename_i hw
      obtain rfl := Option.some.inj h
      exact effect_goto (by rw [hw]; rfl) rfl (by simp [hw, Stage.delivery])
    · cases h
  | pollSend =>
    simp only [work] at h
    split at h
    · rename_i uploaded hw
      obtain rfl := Option.some.inj h
      exact .poll uploaded rfl rfl hw
        (by simp [hw, Stage.ordinary, Stage.ended, Stage.owesResponse])
        (by simp [hw, Stage.delivery])
    · cases h
  | sendFailed e =>
    simp only [work] at h
    split at h
    · rename_i uploaded hw
      obtain rfl := Option.some.inj h
      exact .poll uploaded rfl rfl hw rfl (by simp [Stage.delivery])
    · cases h
  | sendReturned =>
    simp only [work] at h
    split at h
    · rename_i uploaded hw
      obtain rfl := Option.some.inj h
      exact .returned uploaded rfl rfl hw rfl
    · cases h
  | recordResponse =>
    simp only [work] at h
    split at h
    · rename_i uploaded hw
      obtain rfl := Option.some.inj h
      cases uploaded with
      | false => exact .response false (markResponse _ _) (fun _ => rfl) rfl rfl rfl hw rfl rfl
      | true => exact .response true (markResponse _ _) (fun _ => rfl) rfl rfl rfl hw rfl rfl
    · cases h
  | absorbed revision => exact effect_noted h (fun _ => rfl) rfl rfl
  | opened => exact effect_between h rfl (Or.inl rfl)
  | chunk count => exact effect_noted h (fun _ => rfl) rfl rfl
  | complete => exact effect_between h rfl (Or.inr rfl)
  | fail e =>
    simp only [work, Option.ite_none_right_eq_some, Option.some.injEq] at h
    obtain ⟨hw, rfl⟩ := h
    refine effect_goto ?_ rfl (by simp [Stage.delivery])
    cases hs : w.stage <;> simp [hs, Stage.canFail] at hw <;> rfl
  | recordBody =>
    simp only [work] at h
    split at h
    · rename_i e hw
      obtain rfl := Option.some.inj h
      refine effect_update ?_ (by rw [hw]; rfl) rfl (by simp [Stage.delivery])
      intro d
      cases hd : d.headersMs <;> simp [markBody, hd]
    · cases h
  | report =>
    simp only [work] at h
    split at h
    · rename_i e hw
      obtain rfl := Option.some.inj h
      exact .finish e rfl rfl rfl (by rw [hw]; rfl) rfl
    · cases h
  | dropGuard =>
    simp only [work] at h
    split at h
    · rename_i hw
      obtain rfl := Option.some.inj h
      exact .finish _ rfl rfl rfl (by rw [hw]; rfl) rfl
    · rename_i hw
      obtain rfl := Option.some.inj h
      exact .finish _ rfl rfl rfl (by rw [hw]; rfl) rfl
    · cases h
  | cancelRequest => cases h
  | dropResponse => cases h
  | contextCancel => cases h
  | tick => cases h
  | stopCancelled => cases h
  | stopDeadline => cases h
  | stopContext => cases h
  | abort => cases h

/-- A stop leaves the stage for one without an expected delivery. -/
private theorem effect_stop {w : World} {s : Stage} (hw : w.stage.awaits = true)
    (hs : s.ordinary = true) (hd : s.delivery = none) : Effect w (w.goto s) := by
  refine effect_goto ?_ hs (by simp [hd])
  cases hstage : w.stage <;> simp [hstage, Stage.awaits] at hw <;> rfl

theorem signal_effect {w v : World} {e : Event} (h : signal w e = some v) : Effect w v := by
  cases e with
  | cancelRequest => cases h; exact .signal rfl rfl rfl rfl
  | dropResponse => cases h; exact .signal rfl rfl rfl rfl
  | contextCancel => cases h; exact .signal rfl rfl rfl rfl
  | tick elapsed => cases h; exact .signal rfl rfl rfl rfl
  | stopCancelled =>
    simp only [signal, Option.ite_none_right_eq_some, Option.some.injEq, Bool.and_eq_true] at h
    obtain ⟨⟨hw, _⟩, rfl⟩ := h
    exact effect_stop hw rfl rfl
  | stopDeadline =>
    simp only [signal, Option.ite_none_right_eq_some, Option.some.injEq, Bool.and_eq_true] at h
    obtain ⟨⟨hw, _⟩, rfl⟩ := h
    exact effect_stop hw rfl rfl
  | stopContext =>
    simp only [signal, Option.ite_none_right_eq_some, Option.some.injEq, Bool.and_eq_true] at h
    obtain ⟨⟨hw, _⟩, rfl⟩ := h
    have haw : w.stage.awaits = true := by
      cases hs : w.stage <;> simp [hs, Stage.inTransfer] at hw <;> rfl
    exact effect_stop haw rfl rfl
  | abort =>
    simp only [signal, Option.ite_none_right_eq_some, Option.some.injEq] at h
    obtain ⟨hw, rfl⟩ := h
    exact effect_stop hw rfl rfl
  | _ => cases h

theorem next_effect {w v : World} {e : Event} (h : next w e = some v) : Effect w v := by
  unfold next at h
  cases hw : work w e with
  | some u =>
    rw [hw] at h
    obtain rfl : u = v := by simpa using h
    exact work_effect hw
  | none =>
    rw [hw] at h
    exact signal_effect (by simpa using h)

theorem ended_paid {s : Stage} (h : s.ended = true) : s.owesResponse = false := by
  cases s <;> simp [Stage.ended] at h <;> rfl

structure Invariant (w : World) : Prop where
  finished : w.record.finished ≠ none ↔ w.stage.ended = true
  delivery : ∀ d, w.stage.delivery = some d → w.record.diagnostics.delivery = d
  unpolled : w.record.diagnostics.delivery = .notStarted → w.polls = 0 ∧ w.answered = false
  response : w.record.diagnostics.delivery = .responseStarted ↔
    w.answered = true ∧ w.stage.owesResponse = false
  owes : w.stage.owesResponse = true → w.answered = true

theorem invariant_initial (s : Setup) : Invariant (.initial s) where
  finished := by simp [World.initial, Stage.ended]
  delivery := by simp [World.initial, Stage.delivery, s.delivery]
  unpolled := by simp [World.initial]
  response := by simp [World.initial, s.delivery]
  owes := by simp [World.initial, Stage.owesResponse]

theorem ordinary_iff {s : Stage} :
    s.ordinary = true ↔ s.ended = false ∧ s.owesResponse = false := by
  simp [Stage.ordinary]

theorem Invariant.open {w : World} (h : Invariant w) (hs : w.stage.ended = false) :
    w.record.finished = none := by
  by_contra hf
  rw [h.finished.mp hf] at hs
  cases hs

theorem invariant_note {w v : World} {f : Diagnostics → Diagnostics} (h : Invariant w)
    (keeps : ∀ d, (f d).delivery = d.delivery) (hr : v.record = w.record.update f)
    (hp : v.polls = w.polls) (ha : v.answered = w.answered) (hw : w.stage.ordinary = true)
    (hv : v.stage.ordinary = true)
    (hd : ∀ d, v.stage.delivery = some d → w.stage.delivery = some d) : Invariant v := by
  rw [ordinary_iff] at hw hv
  obtain ⟨hdiag, hopen⟩ := update_open (h.open hw.1) f
  have hsame : v.record.diagnostics.delivery = w.record.diagnostics.delivery := by
    rw [hr, hdiag, keeps]
  refine ⟨?_, ?_, ?_, ?_, ?_⟩
  · simp [hr, hopen, hv.1]
  · intro d hvd
    rw [hsame]
    exact h.delivery d (hd d hvd)
  · rw [hsame, hp, ha]
    exact h.unpolled
  · rw [hsame, ha, h.response, hw.2, hv.2]
  · simp [hv.2]

theorem invariant_step {w v : World} {e : Event} (h : Invariant w) (hn : next w e = some v) :
    Invariant v := by
  cases next_effect hn with
  | signal hr hs hp ha =>
    refine ⟨?_, ?_, ?_, ?_, ?_⟩
    · rw [hr, hs]; exact h.finished
    · rw [hr, hs]; exact h.delivery
    · rw [hr, hp, ha]; exact h.unpolled
    · rw [hr, hs, ha]; exact h.response
    · rw [hs, ha]; exact h.owes
  | note f keeps hr hp ha hw hv hd => exact invariant_note h keeps hr hp ha hw hv hd
  | dispatch f marks hr hp ha hw hv =>
    obtain ⟨hdiag, hopen⟩ := update_open (h.open (by rw [hw]; rfl)) f
    have hsent : v.record.diagnostics.delivery = .possiblySent := by rw [hr, hdiag, marks]
    have hbefore := h.unpolled (h.delivery .notStarted (by rw [hw]; rfl))
    refine ⟨?_, ?_, ?_, ?_, ?_⟩
    · simp [hr, hopen, hv, Stage.ended]
    · simp [hsent, hv, Stage.delivery]
    · simp [hsent]
    · simp [hsent, ha, hbefore.2]
    · simp [hv, Stage.owesResponse]
  | poll uploaded hr ha hw hv hd =>
    rw [ordinary_iff] at hv
    have hsent := h.delivery .possiblySent (by rw [hw]; rfl)
    refine ⟨?_, ?_, ?_, ?_, ?_⟩
    · rw [hr, h.finished, hw, hv.1]
      rfl
    · intro d hvd
      rw [hr, hsent, hd d hvd]
    · simp [hr, hsent]
    · have := h.response
      simp only [hsent, hw, Stage.owesResponse, reduceCtorEq, false_iff] at this
      simp [hr, hsent, ha, hv.2, this]
    · simp [hv.2]
  | returned uploaded hr ha hw hv =>
    have hsent := h.delivery .possiblySent (by rw [hw]; rfl)
    refine ⟨?_, ?_, ?_, ?_, ?_⟩
    · rw [hr, h.finished, hw, hv]
      rfl
    · simp [hr, hsent, hv, Stage.delivery]
    · simp [hr, hsent]
    · simp [hr, hsent, hv, Stage.owesResponse]
    · exact fun _ => ha
  | response uploaded f marks hr hp ha hw hv hd =>
    rw [ordinary_iff] at hv
    obtain ⟨hdiag, hopen⟩ := update_open (h.open (by rw [hw]; rfl)) f
    have hstarted : v.record.diagnostics.delivery = .responseStarted := by rw [hr, hdiag, marks]
    have hanswered : w.answered = true := h.owes (by rw [hw]; rfl)
    refine ⟨?_, ?_, ?_, ?_, ?_⟩
    · simp [hr, hopen, hv.1]
    · intro d hvd
      rw [hstarted]
      exact Option.some.inj (hd.symm.trans hvd)
    · simp [hstarted]
    · simp [hstarted, ha, hanswered, hv.2]
    · simp [hv.2]
  | finish e hr hp ha hw hv =>
    have hsame : v.record.diagnostics.delivery = w.record.diagnostics.delivery := by
      rw [hr, finish_delivery]
    have hpaid : v.stage.owesResponse = false := ended_paid hv
    refine ⟨?_, ?_, ?_, ?_, ?_⟩
    · simp [hr, hv]
    · intro d hvd
      cases hs : v.stage <;> simp [hs, Stage.ended, Stage.delivery] at hv hvd
    · rw [hsame, hp, ha]; exact h.unpolled
    · rw [hsame, ha, h.response, hw, hpaid]
    · simp [hpaid]

def Forward (w v : World) : Prop :=
  v.record.diagnostics.delivery = w.record.diagnostics.delivery ∨
  (w.record.diagnostics.delivery = .notStarted ∧ v.record.diagnostics.delivery = .possiblySent) ∨
  (w.record.diagnostics.delivery = .possiblySent ∧
    v.record.diagnostics.delivery = .responseStarted)

theorem forward_step {w v : World} {e : Event} (h : Invariant w) (hn : next w e = some v) :
    Forward w v := by
  cases next_effect hn with
  | signal hr => exact Or.inl (by rw [hr])
  | note f keeps hr _ _ hw =>
    obtain ⟨hdiag, _⟩ := update_open (h.open (ordinary_iff.mp hw).1) f
    exact Or.inl (by rw [hr, hdiag, keeps])
  | dispatch f marks hr _ _ hw =>
    obtain ⟨hdiag, _⟩ := update_open (h.open (by rw [hw]; rfl)) f
    exact Or.inr (Or.inl ⟨h.delivery _ (by rw [hw]; rfl), by rw [hr, hdiag, marks]⟩)
  | poll _ hr => exact Or.inl (by rw [hr])
  | returned _ hr => exact Or.inl (by rw [hr])
  | response _ f marks hr _ _ hw =>
    obtain ⟨hdiag, _⟩ := update_open (h.open (by rw [hw]; rfl)) f
    exact Or.inr (Or.inr ⟨h.delivery _ (by rw [hw]; rfl), by rw [hr, hdiag, marks]⟩)
  | finish _ hr => exact Or.inl (by rw [hr, finish_delivery])

/-- After `finish` no step polls `send()` or touches the record. -/
theorem finished_step {w v : World} {e : Event} (h : Invariant w)
    (hf : w.record.finished ≠ none) (hn : next w e = some v) :
    v.record = w.record ∧ v.polls = w.polls := by
  have hended := h.finished.mp hf
  have hnot : ∀ {s : Stage}, w.stage = s → s.ended = true := fun hs => hs ▸ hended
  cases next_effect hn with
  | signal hr _ hp => exact ⟨hr, hp⟩
  | note f _ hr hp => exact ⟨by rw [hr, update_finished hf], hp⟩
  | dispatch f _ hr hp => exact ⟨by rw [hr, update_finished hf], hp⟩
  | poll _ _ _ hw => exact absurd (hnot hw) (by simp [Stage.ended])
  | returned _ _ _ hw => exact absurd (hnot hw) (by simp [Stage.ended])
  | response _ f _ hr hp => exact ⟨by rw [hr, update_finished hf], hp⟩
  | finish e hr hp => exact ⟨by rw [hr, finish_finished hf], hp⟩

theorem finished_run {s : Setup} {w v : World} {es : List Event} (h : Invariant w)
    (hf : w.record.finished ≠ none) (hrun : (machine s).run w es = some v) :
    v.record = w.record ∧ v.polls = w.polls := by
  have hpres := Machine.run_preserves (M := machine s)
    (P := fun u => Invariant u ∧ u.record = w.record ∧ u.polls = w.polls)
    (fun a e b ha hn => by
      obtain ⟨hrec, hpolls⟩ := finished_step ha.1 (by rw [ha.2.1]; exact hf) hn
      exact ⟨invariant_step ha.1 hn, hrec.trans ha.2.1, hpolls.trans ha.2.2⟩)
    ⟨h, rfl, rfl⟩ hrun
  exact hpres.2

/-- What a finished request tells, and that it never changes its mind. -/
structure Settled (s : Setup) (w : World) : Prop where
  not_started : w.record.diagnostics.delivery = .notStarted → w.polls = 0
  response_started : w.record.diagnostics.delivery = .responseStarted ↔ w.answered = true
  no_later_poll : ∀ es v, (machine s).run w es = some v →
    v.record = w.record ∧ v.polls = w.polls
  update : ∀ f, w.record.update f = w.record
  finish : ∀ now e, w.record.finish now e = (w.record, w.record.statusLocked)
  diagnostics : ∀ now, w.record.diagnosticsAt now = w.record.statusLocked.diagnostics
  status : ∀ now, w.record.statusAt now = w.record.statusLocked

theorem reachable_invariant {s : Setup} {w : World} (h : (machine s).Reachable w) :
    Invariant w :=
  Machine.reachable_preserves (invariant_initial s) (fun _ _ _ => invariant_step) h

theorem Invariant.settled {s : Setup} {w : World} (h : Invariant w)
    (hf : w.record.finished ≠ none) : Settled s w where
  not_started := fun hd => (h.unpolled hd).1
  response_started := by
    have hpaid : w.stage.owesResponse = false := ended_paid (h.finished.mp hf)
    rw [h.response]
    simp [hpaid]
  no_later_poll := fun _ _ hrun => finished_run h hf hrun
  update := update_finished hf
  finish := finish_finished hf
  diagnostics := diagnosticsAt_finished hf
  status := statusAt_finished hf

/-- Delivery honesty of the service, under every interleaving of the worker's steps with
cancellation, response drop, deadline, context cancellation and abort. -/
theorem delivery_honest {s : Setup} {w : World} (h : (machine s).Reachable w) :
    (w.record.finished ≠ none → Settled s w) ∧
    ∀ e v, (machine s).next w e = some v → Forward w v := by
  have hinv := reachable_invariant h
  exact ⟨hinv.settled, fun _ _ hn => forward_step hinv hn⟩

def cancelledSetup : Setup where
  started := 0
  queuedAt := 0
  queued := 0
  clock := 0
  timeoutMs := 1000
  diagnostics := ⟨"r", 0, "t", "s", .queued, .notStarted, 0, none, none, 0, 0, 0, "chrome_120",
    none, none, none⟩
  phase := rfl
  delivery := rfl

theorem delivery_honest_cancelled :
    ∃ w, (machine cancelledSetup).Reachable w ∧
      w.record.statusLocked.state = .failed ∧
      w.record.diagnostics.delivery = .possiblySent ∧ w.polls = 1 ∧
      Settled cancelledSetup w := by
  have hrun : ((machine cancelledSetup).run (.initial cancelledSetup)
      [.spawn, .begin, .permit, .admission, .owner none, .locate, .access, .builder, .apply none,
        .dispatch, .pollSend, .cancelRequest, .stopCancelled, .recordBody, .report,
        .dropGuard]).any (fun w => w.record.finished ≠ none ∧
          w.record.statusLocked.state = .failed ∧
          w.record.diagnostics.delivery = .possiblySent ∧ w.polls = 1) := by decide
  obtain ⟨w, hw, hb⟩ := (Option.any_eq_true _ _).mp hrun
  obtain ⟨hfin, hstate, hsent, hpolls⟩ := of_decide_eq_true hb
  exact ⟨w, ⟨_, hw⟩, hstate, hsent, hpolls, (delivery_honest ⟨_, hw⟩).1 hfin⟩

end RequestWorker
