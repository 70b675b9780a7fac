import Ja3Proxy.FailureReports

/-! What a client learns from the status of a request (`status_handler`, `cancel_handler`,
`requestStatus`, `cancelRequest`). The status may be asked for at any moment, also when nobody
reads the response any more. -/
namespace StatusReports

open FailedTranscript FailureReports RequestRecord ResponseTranscript SdkErrors ServiceToSdk
open SafeIntegers (maxSafe)
open FrameReader (Bytes single_bytes)
open ResponseStream hiding machine
open ResponseStream (machine)
open TransitionRuns TransportErrors
open SdkExchange (Json mediaType)

variable {x : Exchange} {w v : World} {limit : ℕ} {channel : List Bytes} {e : Event}

def watched (channel : List Bytes) (w : World) : World :=
  { w with receiving := true, channel := channel }

theorem work_watched (he : e ≠ .handOver) :
    work x (watched channel w) e = (work x w e).map (watched channel) := by
  cases e with
  | handOver => exact absurd rfl he
  | absorbed revision =>
    cases hstage : w.stage <;> cases hresponse : w.response <;>
      simp only [work, watched, hstage, hresponse, Option.map_none, Option.map_some]
    simp only [openResponse, metadataOf, World.update, World.goto]
    split <;> simp only [hresponse]
  | pull =>
    cases hstage : w.stage <;>
      simp only [work, watched, hstage, Option.map_none, Option.map_some]
    unfold ResponseStream.pull
    split
    · rfl
    · rfl
    · split <;> rfl
  | cookies revision =>
    cases hstage : w.stage <;>
      simp only [work, watched, World.update, hstage, Option.map_none, Option.map_some]
  | uploadBytes count =>
    cases hstage : w.stage <;>
      simp only [work, watched, hstage, Option.map_none]
    all_goals
      split <;> simp only [World.update, watched, hstage, Option.map_none, Option.map_some]
  | stop signal =>
    by_cases hawaits : w.stage.awaits = true
    · have hstop : work x w (.stop signal) = some (w.goto (.stopped (some signal.error))) :=
        if_pos hawaits
      rw [hstop]
      exact if_pos hawaits
    · have hnone : work x w (.stop signal) = none := if_neg hawaits
      rw [hnone]
      exact if_neg hawaits
  | _ =>
    cases hstage : w.stage <;> simp only [work, watched, hstage, Option.map_none, Option.map_some]
    all_goals rfl

/-- Sending fails as a cancellation does. -/
theorem handOver_watched (hreceiving : w.receiving = false) (hv : work x w .handOver = some v) :
    work x (watched channel w) (.stop .cancelled) = some (watched channel v) := by
  simp only [work, handOver, hreceiving] at hv
  cases hstage : w.stage with
  | sendingHead head =>
    cases hresponse : w.response with
    | none => simp [hstage, hresponse] at hv
    | some response =>
      simp only [hstage, hresponse, Bool.false_eq_true, if_false, Option.some.injEq] at hv
      subst hv
      simp only [work, watched, hstage, Stage.awaits, if_true, World.goto, Signal.error]
  | sending frames rest count =>
    cases frames with
    | nil => simp [hstage] at hv
    | cons frame frames =>
      simp only [hstage, Bool.false_eq_true, if_false, Option.some.injEq] at hv
      subst hv
      simp only [work, watched, hstage, Stage.awaits, if_true, World.goto, Signal.error]
  | _ => simp [hstage] at hv

/-- The consumer is there, or the second worker has one that does not read any more. -/
def Shadow (w w' : World) : Prop :=
  w.receiving = true ∧ w' = w ∨
    w.receiving = false ∧ w.ended = false ∧ ∃ channel, w' = watched channel w

def Revised (limit : ℕ) (e : Event) : Prop :=
  ∀ revision, e = .cookies revision ∨ e = .absorbed (some revision) → revision.toNat ≤ limit

theorem next_of_work (hv : work x w e = some v) : next x w e = some v := by
  rw [next, hv]

theorem shadow_step {w' : World} (h : Shadow w w') (he : Revised limit e)
    (hv : next x w e = some v) :
    ∃ fs v', (machine x).run w' fs = some v' ∧ (∀ f ∈ fs, Revised limit f) ∧ Shadow v v' := by
  have follow : ∀ {f : Event} {u u' : World}, next x u f = some u' →
      (machine x).run u [f] = some u' := fun hnext => (machine x).run_cons_iff.mpr ⟨_, hnext, rfl⟩
  have only : ∀ f ∈ [e], Revised limit f := fun f hf => by rwa [List.mem_singleton.mp hf]
  rcases h with ⟨hopen, rfl⟩ | ⟨hgone, hended, channel, rfl⟩
  · cases hreceiving : v.receiving with
    | true => exact ⟨[e], v, follow hv, only, .inl ⟨hreceiving, rfl⟩⟩
    | false =>
      refine ⟨[], w', rfl, fun f hf => absurd hf List.not_mem_nil, .inr ⟨hreceiving, ?_⟩⟩
      unfold next at hv
      split at hv
      next u hwork =>
        cases hv
        rw [(work_same hwork).2.1, hopen] at hreceiving
        cases hreceiving
      next =>
        cases e with
        | dropBody =>
          simp only [consume] at hv
          split at hv
          · cases hv
          next hended =>
            cases hv
            refine ⟨by simpa using hended, w'.channel, ?_⟩
            simp only [watched, ← hopen]
        | tick elapsed =>
          cases hv
          rw [hopen] at hreceiving
          cases hreceiving
        | receive =>
          simp only [consume] at hv
          split at hv
          · split at hv
            · cases hv
              rw [hopen] at hreceiving
              cases hreceiving
            · split at hv
              · cases hv
              · cases hv
                rw [hopen] at hreceiving
                cases hreceiving
          · cases hv
        | _ => cases hv
  · unfold next at hv
    split at hv
    next u hwork =>
      cases hv
      obtain ⟨-, hreceiving, hended'⟩ := work_same hwork
      have hlater : Shadow v (watched channel v) :=
        .inr ⟨hreceiving.trans hgone, hended'.trans hended, channel, rfl⟩
      by_cases hhand : e = .handOver
      · subst hhand
        have hstop : next x (watched channel w) (.stop .cancelled) = some (watched channel v) :=
          next_of_work (handOver_watched hgone hwork)
        refine ⟨[.stop .cancelled], _, follow hstop, ?_, hlater⟩
        intro f hf revision hrevision
        rw [List.mem_singleton.mp hf] at hrevision
        rcases hrevision with hrevision | hrevision <;> cases hrevision
      · refine ⟨[e], _, follow (next_of_work ?_), only, hlater⟩
        rw [work_watched hhand, hwork]
        rfl
    next =>
      cases e with
      | tick elapsed =>
        cases hv
        exact ⟨[.tick elapsed], _, follow rfl, only, .inr ⟨hgone, hended, channel, rfl⟩⟩
      | receive => simp [consume, hgone] at hv
      | dropBody =>
        simp only [consume] at hv
        rw [if_neg (by simp [hended])] at hv
        cases hv
        exact ⟨[], _, rfl, fun f hf => absurd hf List.not_mem_nil, .inr ⟨rfl, hended, channel, rfl⟩⟩
      | _ => cases hv

/-- Whether the consumer is there or not, the record is as in a run with one. -/
theorem invariant_anywhere (hcodec : x.codec.Bounded) {es : List Event}
    (hrun : (machine x).run (.initial x) es = some w) (hclock : w.clock / 1000000 ≤ limit)
    (hrevised : ∀ revision, .cookies revision ∈ es ∨ .absorbed (some revision) ∈ es →
      revision.toNat ≤ limit) :
    ∃ w', Invariant x limit w' ∧ Told x limit w' ∧ w'.record = w.record ∧
      w'.response = w.response := by
  have halong : (machine x).Along (fun _ e _ => Revised limit e) (.initial x) es := by
    refine Machine.along_of_mem fun e he _ _ revision hrevision => hrevised revision ?_
    rcases hrevision with rfl | rfl
    · exact .inl he
    · exact .inr he
  obtain ⟨fs, w', hrun', hfs, hshadow⟩ := Machine.run_simulates (N := machine x)
    (C := fun _ e _ => Revised limit e) (A := Revised limit) (R := Shadow)
    (fun _ _ _ _ hr hc hn => shadow_step hr hc hn)
    (.inl ⟨rfl, rfl⟩ : Shadow (.initial x) (.initial x)) halong hrun
  have hsame : w'.receiving = true ∧ w'.record = w.record ∧ w'.response = w.response ∧
      w'.clock = w.clock := by
    rcases hshadow with ⟨hopen, rfl⟩ | ⟨-, -, channel, rfl⟩
    · exact ⟨hopen, rfl, rfl, rfl⟩
    · exact ⟨rfl, rfl, rfl, rfl⟩
  have hclock' : w'.clock / 1000000 ≤ limit := by
    rw [hsame.2.2.2]
    exact hclock
  have hheard := heard_run hcodec hrun' hclock' fun revision hmem => by
      rcases hmem with hmem | hmem
      · exact hfs _ hmem revision (.inl rfl)
      · exact hfs _ hmem revision (.inr rfl)
  rcases hheard with ⟨-, hinv, htold⟩ | ⟨hgone, -⟩
  · exact ⟨w', hinv, htold, hsame.2.1, hsame.2.2.1⟩
  · rw [hsame.1] at hgone
    cases hgone

def Leaves (f : TransportErrors.Diagnostics → TransportErrors.Diagnostics) : Prop :=
  ∀ d, d.phase ≠ .queued → (f d).phase ≠ .queued

inductive Later (r : Record) : Record → Prop where
  | update {f} (h : Leaves f) : Later r (r.update f)
  | finish {f} (h : Leaves f) (now : ℕ) (error : Option TransportError) :
    Later r ((r.update f).finish now error).1

theorem update_id (r : Record) : r.update id = r := by
  unfold Record.update
  split <;> rfl

theorem Later.refl (r : Record) : Later r r := by
  have h : Later r (r.update id) := .update fun _ h => h
  rwa [update_id] at h

theorem markBody_phase (started now : ℕ) (d : TransportErrors.Diagnostics) :
    (markBody started now d).phase = d.phase := by
  unfold markBody
  split <;> rfl

theorem locate_phase (owner : Owner) (d : TransportErrors.Diagnostics) :
    (locate owner d).phase = d.phase := by
  cases owner <;> rfl

theorem later_openResponse {u : World} {r : Upstream} {revision : Option ℕ} :
    (openResponse x u r revision).record = u.record := by
  unfold openResponse
  split <;> rfl

theorem later_pull {rest : List BodyItem} {count : ℕ} :
    Later w.record (ResponseStream.pull x w rest count).record := by
  unfold ResponseStream.pull
  split
  · exact .refl _
  · exact .refl _
  · split <;> exact .update fun _ h => h

theorem later_handOver {bytes : Bytes} {stage : Stage} (hv : handOver w bytes stage = some v) :
    v.record = w.record := by
  unfold handOver at hv
  split at hv
  · split at hv
    · cases hv
      rfl
    · cases hv
  · cases hv
    rfl

theorem work_later (hv : work x w e = some v) : Later w.record v.record := by
  cases e with
  | absorbed revision =>
    simp only [work] at hv
    split at hv
    · cases hv
      rw [later_openResponse]
      exact .update fun _ _ => by simp [startBody]
    · cases hv
  | pull =>
    simp only [work] at hv
    split at hv
    · cases hv
      exact later_pull
    · cases hv
  | handOver =>
    simp only [work] at hv
    split at hv
    · rw [later_handOver hv]
      exact .refl _
    · rw [later_handOver hv]
      exact .refl _
    · cases hv
  | report =>
    simp only [work] at hv
    split at hv
    · cases hv
      exact .finish (fun d h => by rwa [markBody_phase]) w.clock _
    · cases hv
  | leave =>
    simp only [work] at hv
    split at hv
    · cases hv
      have hfinish : Later w.record
          ((w.record.update id).finish w.clock (some (.fromCode .cancelled))).1 :=
        .finish (fun _ h => h) _ _
      rwa [update_id] at hfinish
    · cases hv
  | admitted =>
    simp only [work] at hv
    split at hv
    · cases hv
      exact .update fun _ _ => by simp [leaveQueue]
    · cases hv
  | locate =>
    simp only [work] at hv
    split at hv
    · cases hv
      exact .update fun d h => by rwa [locate_phase]
    · cases hv
  | dispatched =>
    simp only [work] at hv
    split at hv
    · cases hv
      exact .update fun _ _ => by simp [markDispatched]
    · cases hv
  | uploadBytes count =>
    simp only [work] at hv
    split at hv
    all_goals
      try split at hv
      all_goals
        cases hv
        try exact .update fun _ h => h
  | fail fault =>
    simp only [work] at hv
    split at hv
    all_goals
      cases hv
      try exact .refl _
  | stop signal =>
    simp only [work] at hv
    split at hv
    · cases hv
      exact .refl _
    · cases hv
  | uploadDone =>
    simp only [work] at hv
    split at hv
    all_goals
      cases hv
      try exact .refl _
  | cookies revision =>
    simp only [work] at hv
    split at hv
    · cases hv
      exact .update fun _ h => h
    · cases hv
  | respond response =>
    simp only [work] at hv
    split at hv
    · cases hv
      exact .update fun _ h => h
    · cases hv
  | _ => cases hv

theorem consume_record (hv : consume w e = some v) : v.record = w.record := by
  cases e with
  | tick elapsed =>
    cases hv
    rfl
  | receive =>
    simp only [consume] at hv
    split at hv
    · split at hv
      · cases hv
        rfl
      · split at hv
        · cases hv
        · cases hv
          rfl
    · cases hv
  | dropBody =>
    simp only [consume] at hv
    split at hv
    · cases hv
    · cases hv
      rfl
  | _ => cases hv

theorem next_later (hv : next x w e = some v) : Later w.record v.record := by
  unfold next at hv
  split at hv
  next u hwork =>
    cases hv
    exact work_later hwork
  next =>
    rw [consume_record hv]
    exact .refl _

def Undecided (r : Record) : Prop := r.finished = none → r.error = none

theorem Later.undecided {r r' : Record} (h : Later r r') (hr : Undecided r) : Undecided r' := by
  intro hopen
  cases h with
  | update hf =>
    unfold Record.update at hopen ⊢
    split at hopen
    next hnone =>
      rw [if_pos hnone]
      exact hr hopen
    next hsome =>
      rw [if_neg hsome]
      exact hr hopen
  | finish hf now error => exact absurd hopen (finish_isFinished _ now error)

def rank (r : Record) : ℕ :=
  if r.finished.isSome then 2 else if r.diagnostics.phase = .queued then 0 else 1

theorem Later.frozen {r r' : Record} (h : Later r r') (hr : r.finished ≠ none) : r' = r := by
  cases h with
  | update hf => exact update_finished hr _
  | finish hf now error =>
    rw [update_finished hr, finish_finished hr]

theorem rank_update {r : Record} {f : TransportErrors.Diagnostics → TransportErrors.Diagnostics}
    (hf : Leaves f) : rank r ≤ rank (r.update f) := by
  unfold Record.update
  split
  next hopen =>
    have hnone : r.finished = none := by simpa using hopen
    by_cases hqueued : r.diagnostics.phase = .queued
    · simp [rank, hnone, hqueued]
    · simp [rank, hnone, hqueued, hf _ hqueued]
  next => exact Nat.le_refl _

theorem rank_le (r : Record) : rank r ≤ 2 := by
  unfold rank
  split
  · exact Nat.le_refl _
  · split <;> omega

theorem Later.rank_le {r r' : Record} (h : Later r r') : rank r ≤ rank r' := by
  cases h with
  | update hf => exact rank_update hf
  | @finish f hf now error =>
    have hfinal := finish_isFinished (r.update f) now error
    have htwo : rank ((r.update f).finish now error).1 = 2 := by
      unfold rank
      rw [if_pos (Option.isSome_iff_ne_none.mpr hfinal)]
    rw [htwo]
    exact StatusReports.rank_le r

def stateRank : RequestState → ℕ
  | .queued => 0
  | .active => 1
  | .complete | .failed => 2

theorem statusAt_rank {r : Record} (hr : Undecided r) (now : ℕ) :
    stateRank (r.statusAt now).state = rank r := by
  unfold Record.statusAt Record.statusLocked rank
  cases hfinished : r.finished with
  | none =>
    have hnone := hr hfinished
    by_cases hqueued : r.diagnostics.phase = .queued <;> simp [hnone, hqueued, stateRank]
  | some at' => cases herror : r.error <;> simp [stateRank]

/-- The state that a client sees only moves forward, and a final one stays with all its parts. -/
theorem later_run (hr : Undecided w.record) {es : List Event}
    (hrun : (machine x).run w es = some v) :
    Undecided v.record ∧ rank w.record ≤ rank v.record ∧
      (w.record.finished ≠ none → v.record = w.record) := by
  refine Machine.run_preserves (M := machine x) (P := fun u => Undecided u.record ∧
    rank w.record ≤ rank u.record ∧ (w.record.finished ≠ none → u.record = w.record))
    (fun s e t h hn => ?_) ⟨hr, Nat.le_refl _, fun _ => rfl⟩ hrun
  obtain ⟨hundecided, hrank, hfrozen⟩ := h
  have hlater := next_later hn
  refine ⟨hlater.undecided hundecided, Nat.le_trans hrank hlater.rank_le, fun hfinal => ?_⟩
  have hsame := hfrozen hfinal
  rw [hlater.frozen (by rw [hsame]; exact hfinal), hsame]

/-- `RequestStatus` after the schema. -/
structure WireStatus where
  state : RequestState
  diagnostics : SdkErrors.Diagnostics
  error : Option WireError

/-- `parseJson` with the schema checks of a status and of an error. -/
structure Parsers where
  status : Bytes → Json WireStatus
  error : Bytes → Json WireError

structure Reply where
  status : ℕ
  contentType : Option String
  body : Option (List Bytes)

def Reply.ok (reply : Reply) : Bool := Nat.ble 200 reply.status && Nat.ble reply.status 299

def Reply.json (reply : Reply) : Bool :=
  reply.contentType.any (mediaType · == "application/json".toList)

def controlDiagnostics : SdkErrors.Diagnostics := initialDiagnostics "control" 0 "unknown"

def controlError (kind : Option FailureKind) : SdkError :=
  .new .protocolError controlDiagnostics false kind

/-- The loop of `readJson`. -/
def readAll (limit : ℕ) (bytes : Bytes) : List Bytes → Option Bytes
  | [] => some bytes
  | chunk :: rest =>
    if limit < bytes.length + chunk.length then none else readAll limit (bytes ++ chunk) rest

/-- `Service.control` up to the parsed value, and `undefined` for an empty reply. -/
def control {α : Type} (limit : ℕ) (parse : Bytes → Json α) (parseError : Bytes → Json WireError)
    (reply : Reply) : Except SdkError (Option (Json α)) :=
  if 300 ≤ reply.status ∧ reply.status ≤ 399 then .error (controlError none)
  else if reply.ok && reply.status == 204 then .ok none
  else if !reply.json then .error (controlError none)
  else
    match reply.body.bind (readAll limit []) with
    | none => .error (controlError none)
    | some bytes =>
      if reply.ok then
        match parse bytes with
        | .malformed => .error (controlError (some .serviceUnavailable))
        | json => .ok (some json)
      else
        match parseError bytes with
        | .malformed => .error (controlError (some .serviceUnavailable))
        | json => .error (transportError json.value controlDiagnostics false false)

/-- `diagnostics(value, requestId)` -/
def ofRequest (requestId : String) (d : SdkErrors.Diagnostics) : Bool :=
  diagnosticsOk d none && d.requestId == requestId

structure Status where
  state : RequestState
  diagnostics : SdkErrors.Diagnostics
  error : Option SdkError

def readStatus (requestId : String) (value : Option WireStatus) : Except SdkError Status :=
  match value with
  | none => .error (localError .protocolError none)
  | some value =>
    if !ofRequest requestId value.diagnostics then .error (localError .protocolError none)
    else if value.state = .failed then
      match value.error with
      | none => .error (localError .protocolError none)
      | some error =>
        .ok ⟨.failed, value.diagnostics,
          some (transportError (some error) value.diagnostics false true)⟩
    else if value.error.isSome ||
        (value.state = .complete && value.diagnostics.phase != .complete) then
          .error (localError .protocolError none)
    else .ok ⟨value.state, value.diagnostics, none⟩

def requestStatus (p : Parsers) (limit : ℕ) (requestId : String) (reply : Reply) :
    Except SdkError Status :=
  (control limit p.status p.error reply).bind fun value =>
    readStatus requestId (value.bind Json.value)

def cancelRequest (p : Parsers) (limit : ℕ) (requestId : String) (reply : Reply) :
    Except SdkError Unit :=
  (control limit p.status p.error reply).bind fun value =>
    if (value.bind Json.value).any (ofRequest requestId ·.diagnostics) then .ok ()
    else .error (localError .protocolError none)

structure Codec where
  status : RequestRecord.RequestStatus → Bytes
  error : TransportError → Bytes

/-- The reply of `status_handler` and of `cancel_handler`, in these chunks. -/
def statusReply (chunks : List Bytes) : Reply := ⟨200, some "application/json", some chunks⟩

/-- `TransportError::into_response` -/
def errorReply (code : ErrorCode) (chunks : List Bytes) : Reply :=
  ⟨code.status, some "application/json", some chunks⟩

def ReadsStatus (c : Codec) (p : Parsers) (s : RequestRecord.RequestStatus) : Prop :=
  Safe s.diagnostics → (∀ e ∈ s.error, e.diagnostics = some s.diagnostics) →
    p.status (c.status s) = .accepted ⟨s.state, view s.diagnostics,
      s.error.map fun e => ⟨e.code, e.diagnostics.map view⟩⟩

theorem readAll_within {bytes : Bytes} {chunks : List Bytes}
    (h : bytes.length + chunks.flatten.length ≤ limit) :
    readAll limit bytes chunks = some (bytes ++ chunks.flatten) := by
  induction chunks generalizing bytes with
  | nil => simp [readAll]
  | cons chunk rest ih =>
    rw [List.flatten_cons, List.length_append] at h
    rw [readAll, if_neg (by omega), ih (by rw [List.length_append]; omega), List.flatten_cons,
      List.append_assoc]

theorem reply_json (status : ℕ) (chunks : List Bytes) :
    (⟨status, some "application/json", some chunks⟩ : Reply).json = true := by
  show (mediaType "application/json" == "application/json".toList) = true
  decide

theorem control_ok {α : Type} {parse : Bytes → Json α} {parseError : Bytes → Json WireError}
    {chunks : List Bytes} {value : α} (hsize : chunks.flatten.length ≤ limit)
    (hparse : parse chunks.flatten = .accepted value) :
    control limit parse parseError (statusReply chunks) = .ok (some (.accepted value)) := by
  have hread : readAll limit [] chunks = some chunks.flatten :=
    readAll_within (by simpa using hsize)
  have hjson : (statusReply chunks).json = true := reply_json 200 chunks
  rw [control, hjson]
  simp [statusReply, Reply.ok, hread, hparse]

theorem status_range (code : ErrorCode) : 400 ≤ code.status ∧ code.status ≤ 599 := by
  cases code <;> decide

/-- An error of the service is the error of the call. -/
theorem control_error {α : Type} {parse : Bytes → Json α} {parseError : Bytes → Json WireError}
    {chunks : List Bytes} {code : ErrorCode} (hsize : chunks.flatten.length ≤ limit)
    (hparse : parseError chunks.flatten = .accepted ⟨code, none⟩) :
    control limit parse parseError (errorReply code chunks) =
      .error (.new code controlDiagnostics false none) := by
  have hread : readAll limit [] chunks = some chunks.flatten :=
    readAll_within (by simpa using hsize)
  have hjson : (errorReply code chunks).json = true := reply_json code.status chunks
  obtain ⟨hlow, -⟩ := status_range code
  have hredirect : ¬(300 ≤ (errorReply code chunks).status ∧
      (errorReply code chunks).status ≤ 399) := fun h =>
        absurd h.2 (by show ¬code.status ≤ 399; omega)
  have hok : (errorReply code chunks).ok = false := by
    have hhigh : Nat.ble code.status 299 = false := by
      rw [← Bool.not_eq_true, Nat.ble_eq]
      omega
    exact Bool.and_eq_false_iff.mpr (.inr hhigh)
  rw [control, hjson, hok, if_neg hredirect]
  simp [errorReply, hread, hparse, Json.value, transportError]

theorem final_of_invariant (h : Invariant x limit w) (hfinal : w.record.finished ≠ none) :
    (∃ error, w.record.error = some error ∧ error.diagnostics = some w.record.diagnostics) ∨
      w.record.error = none ∧ w.record.diagnostics.phase = .complete := by
  have settled : ∀ sent, Settled x { seen limit w with sent := sent } →
      (∃ error, w.record.error = some error ∧ error.diagnostics = some w.record.diagnostics) ∨
        w.record.error = none ∧ w.record.diagnostics.phase = .complete := by
    rintro sent ⟨-, ⟨error, head, payloads, herror, hdiagnostics, -⟩ | ⟨hnone, hphase, -⟩⟩
    · exact .inl ⟨error, herror, hdiagnostics⟩
    · exact .inr ⟨hnone, hphase⟩
  cases hended : w.ended with
  | true =>
    obtain ⟨sent, -, hsettled⟩ := h.ended hended
    exact settled _ hsettled
  | false =>
    by_cases hreported : w.stage = .reported ∨ w.stage = .gone
    · have hsettled : Settled x (seen limit w) := (h.reported hreported hended).2
      exact settled (seen limit w).sent hsettled
    · obtain ⟨hnot, hhere⟩ := not_or.mp hreported
      exact absurd (h.running hnot hhere).begun.1.finished hfinal

structure Described (x : Exchange) (limit : ℕ) (s : RequestRecord.RequestStatus) : Prop where
  kept : Kept x limit s.diagnostics
  named : Named x s.diagnostics
  failed : s.state = .failed ↔ s.error.isSome = true
  error : ∀ e ∈ s.error, e.diagnostics = some s.diagnostics
  complete : s.state = .complete → s.diagnostics.phase = .complete

theorem named_timed {r : Record} {now : ℕ} {d : TransportErrors.Diagnostics} (h : Named x d) :
    Named x (r.timed now d) := by
  have hprofile : (r.timed now d).tlsProfile = d.tlsProfile := by
    simp only [Record.timed]
    split <;> rfl
  unfold Named
  rw [hprofile, timed_delivery]
  exact h

theorem described_status {r : Record} {now : ℕ} (hundecided : Undecided r)
    (hkept : Kept x limit r.diagnostics) (hnamed : Named x r.diagnostics)
    (hfinal : r.finished ≠ none →
      (∃ error, r.error = some error ∧ error.diagnostics = some r.diagnostics) ∨
        r.error = none ∧ r.diagnostics.phase = .complete)
    (hnow : now / 1000000 ≤ limit) : Described x limit (r.statusAt now) := by
  cases hfinished : r.finished with
  | none =>
    have hnone := hundecided hfinished
    have hstatus : r.statusAt now =
        { r.statusLocked with diagnostics := r.timed now r.diagnostics } := by
      simp [Record.statusAt, hfinished]
    have hstate : (r.statusAt now).state = .queued ∨ (r.statusAt now).state = .active := by
      rw [hstatus]
      simp only [Record.statusLocked, hnone, hfinished, Option.isSome_none, Bool.false_eq_true,
        if_false]
      split
      · exact .inl rfl
      · exact .inr rfl
    have herror : (r.statusAt now).error = none := by
      rw [hstatus]
      exact hnone
    constructor
    case kept =>
      rw [hstatus]
      exact hkept.timed r hnow
    case named =>
      rw [hstatus]
      exact named_timed hnamed
    case failed => rcases hstate with hstate | hstate <;> simp [hstate, herror]
    case error =>
      intro e he
      rw [herror] at he
      cases he
    case complete => rcases hstate with hstate | hstate <;> simp [hstate]
  | some at' =>
    have hsome : r.finished ≠ none := by simp [hfinished]
    rw [statusAt_finished hsome]
    rcases hfinal hsome with ⟨error, herror, hdiagnostics⟩ | ⟨hnone, hphase⟩
    · refine ⟨hkept, hnamed, ?_, ?_, ?_⟩
      · simp [Record.statusLocked, herror]
      · intro e he
        have hsame : error = e := Option.some.inj (herror.symm.trans he)
        exact hsame ▸ hdiagnostics
      · simp [Record.statusLocked, herror]
    · refine ⟨hkept, hnamed, ?_, ?_, fun _ => hphase⟩
      · simp [Record.statusLocked, hnone, hfinished]
      · intro e he
        have hsome' : r.error = some e := he
        rw [hnone] at hsome'
        cases hsome'

variable {t : Profiles} {g : SdkResponse.Reading} {c : Codec} {p : Parsers} {size : ℕ}

def learned (s : RequestRecord.RequestStatus) : Status where
  state := s.state
  diagnostics := view s.diagnostics
  error := s.error.map fun e => .new e.code (view s.diagnostics) false none

theorem readStatus_described {s : RequestRecord.RequestStatus} (hissued : Issued t g x)
    (h : Described x maxSafe s) :
    ofRequest x.requestId (view s.diagnostics) = true ∧
    readStatus x.requestId (some ⟨s.state, view s.diagnostics,
      s.error.map fun e => ⟨e.code, e.diagnostics.map view⟩⟩) = .ok (learned s) := by
  have hown := diagnosticsOk_failed hissued h.kept h.named
  have hof : ofRequest x.requestId (view s.diagnostics) = true := by
    have hid : (view s.diagnostics).requestId = x.requestId := h.kept.sameRequest
    rw [ofRequest, diagnosticsOk_none hown, hid, beq_self_eq_true]
    rfl
  refine ⟨hof, ?_⟩
  have hid : (view s.diagnostics).requestId = g.call.requestId :=
    h.kept.sameRequest.trans hissued.requestId.1
  have hattempt : (view s.diagnostics).attempt = g.call.attempt :=
    h.kept.sameAttempt.trans hissued.attempt.1
  simp only [readStatus, hof, Bool.not_true, Bool.false_eq_true, if_false]
  cases herror : s.error with
  | none =>
    have hstate : s.state ≠ .failed := fun hfailed => by
      have hsome := h.failed.mp hfailed
      rw [herror] at hsome
      cases hsome
    have hcomplete : ¬(s.state = .complete ∧ (view s.diagnostics).phase ≠ .complete) :=
      fun hboth => hboth.2 (h.complete hboth.1)
    rw [if_neg hstate]
    simp only [Option.map_none, Option.isSome_none, Bool.false_or, Bool.and_eq_true,
      decide_eq_true_eq, bne_iff_ne, learned, herror, if_neg hcomplete]
  | some e =>
    have hfailed : s.state = .failed := h.failed.mpr (by rw [herror]; rfl)
    have hdiagnostics := h.error e herror
    have howned : transportError (some ⟨e.code, some (view s.diagnostics)⟩) (view s.diagnostics)
        false true = reported { g.call with usedProxy := false } e.code (view s.diagnostics) :=
      transportError_own (c := { g.call with usedProxy := false }) hid hattempt hown
    rw [if_pos hfailed]
    simp only [Option.map_some, hdiagnostics, learned, herror, hfailed]
    rw [howned]
    rfl

theorem undecided_initial (x : Exchange) : Undecided (World.initial x).record := fun _ => rfl

/-- Whenever a client asks for the status of a request or cancels it, also when nobody reads the
response any more, the SDK takes the answer of the service for what it is. Later answers never
fall behind it, and a final one stays. Errors of the service reach the client under their code. -/
theorem status_reported (hcodec : x.codec.Bounded) {es : List Event}
    (hrun : (machine x).run (.initial x) es = some w) (hclock : w.clock / 1000000 ≤ maxSafe)
    (hrevised : ∀ revision, .cookies revision ∈ es ∨ .absorbed (some revision) ∈ es →
      revision.toNat ≤ maxSafe)
    (hcontent : ∀ r ∈ w.response, r.content.length ≤ maxSafe) (hissued : Issued t g x)
    (hread : ReadsStatus c p (w.record.statusAt w.clock)) :
    (∀ chunks : List Bytes, chunks.flatten = c.status (w.record.statusAt w.clock) →
      chunks.flatten.length ≤ size →
      requestStatus p size x.requestId (statusReply chunks) =
          .ok (learned (w.record.statusAt w.clock)) ∧
        cancelRequest p size x.requestId (statusReply chunks) = .ok ()) ∧
    (∀ fs v, (machine x).run w fs = some v →
      stateRank (w.record.statusAt w.clock).state ≤ stateRank (v.record.statusAt v.clock).state ∧
      (stateRank (w.record.statusAt w.clock).state = 2 →
        v.record.statusAt v.clock = w.record.statusAt w.clock)) ∧
    ∀ (e : TransportError) (chunks : List Bytes), p.error (c.error e) = .accepted ⟨e.code, none⟩ →
      chunks.flatten = c.error e → chunks.flatten.length ≤ size →
      requestStatus p size x.requestId (errorReply e.code chunks) =
          .error (.new e.code controlDiagnostics false none) ∧
        cancelRequest p size x.requestId (errorReply e.code chunks) =
          .error (.new e.code controlDiagnostics false none) := by
  have hundecided := (later_run (undecided_initial x) hrun).1
  refine ⟨?_, ?_, ?_⟩
  · intro chunks hchunks hsize
    obtain ⟨w', hinv, htold, hrecord, hresponse⟩ := invariant_anywhere hcodec hrun hclock hrevised
    have hdescribed : Described x maxSafe (w.record.statusAt w.clock) := by
      rw [← hrecord] at hundecided ⊢
      exact described_status hundecided htold.kept htold.named (final_of_invariant hinv) hclock
    have hbytes : (w.record.statusAt w.clock).diagnostics.responseBytes ≤ maxSafe := by
      have hcounted := htold.counted maxSafe (by rw [hresponse]; exact hcontent)
      rw [hrecord] at hcounted
      unfold Record.statusAt
      split
      · simp only [Record.timed]
        split <;> exact hcounted
      · exact hcounted
    have hsafe := safe_of_failed hissued hdescribed.kept hbytes
    have hparsed := hread hsafe hdescribed.error
    obtain ⟨hof, hstatus⟩ := readStatus_described hissued hdescribed
    rw [← hchunks] at hparsed
    have hcontrol : control size p.status p.error (statusReply chunks) = .ok (some (.accepted _)) :=
      control_ok hsize hparsed
    constructor
    · rw [requestStatus, hcontrol]
      exact hstatus
    · rw [cancelRequest, hcontrol]
      simp [Except.bind, Json.value, hof]
  · intro fs v hlater
    obtain ⟨hlast, hrank, hfrozen⟩ := later_run hundecided hlater
    rw [statusAt_rank hundecided, statusAt_rank hlast]
    refine ⟨hrank, fun htwo => ?_⟩
    have hfinal : w.record.finished ≠ none := by
      intro hopen
      have hlow : rank w.record ≤ 1 := by
        unfold rank
        rw [hopen]
        simp only [Option.isSome_none, Bool.false_eq_true, if_false]
        split <;> omega
      omega
    have hsame := hfrozen hfinal
    rw [hsame, statusAt_finished hfinal, statusAt_finished hfinal]
  · intro e chunks hparsed hchunks hsize
    rw [← hchunks] at hparsed
    have hcontrol : control size p.status p.error (errorReply e.code chunks) =
        .error (.new e.code controlDiagnostics false none) := control_error hsize hparsed
    rw [requestStatus, cancelRequest, hcontrol]
    exact ⟨rfl, rfl⟩

def leftDiagnostics : TransportErrors.Diagnostics :=
  { plainFinal none with phase := .body, responseBytes := 0 }

def leftStatus : RequestRecord.RequestStatus :=
  ⟨.failed, leftDiagnostics,
    some ((TransportError.fromCode .cancelled).withDiagnostics leftDiagnostics)⟩

def leftText : String :=
  "\x7b\"state\":\"failed\",\"diagnostics\":" ++ plainJson "body" "0" "0" none ++
    ",\"error\":\x7b\"code\":\"CANCELLED\",\"message\":\"Die Anfrage wurde abgebrochen.\"," ++
    "\"diagnostics\":" ++ plainJson "body" "0" "0" none ++ "\x7d\x7d"

def leftJson : Bytes := leftText.toUTF8.data.toList

def unknownJson : Bytes :=
  ("\x7b\"code\":\"INVALID_REQUEST\",\"message\":\"Die Anfrage ist ungültig.\"" ++
    "\x7d").toUTF8.data.toList

def leftCodec : Codec where
  status s := if s = leftStatus then leftJson else []
  error e := if e = .fromCode .invalidRequest then unknownJson else []

def leftParsers : Parsers where
  status json :=
    if json = leftJson then
      .accepted ⟨.failed, view leftDiagnostics, some ⟨.cancelled, some (view leftDiagnostics)⟩⟩
    else .malformed
  error json := if json = unknownJson then .accepted ⟨.invalidRequest, none⟩ else .malformed

theorem left_written : leftCodec.status leftStatus = leftJson := by
  simp only [leftCodec, if_true]

theorem unknown_written : leftCodec.error (.fromCode .invalidRequest) = unknownJson := by
  simp only [leftCodec, if_true]

def leftRun : List Event :=
  [.admitted, .locate, .dispatched, .uploadDone, .respond ⟨200, [], [.chunk [104, 105]]⟩,
    .absorbed none, .dropBody, .handOver, .report]

/-- The status of that request, cut into single bytes, and the answer for an unknown one. -/
theorem status_reported_left :
    ∃ w, (machine (plainExchange 200 none)).run (.initial (plainExchange 200 none)) leftRun =
        some w ∧ w.receiving = false ∧
      requestStatus leftParsers 65536 "r1" (statusReply (leftJson.map fun b => [b])) =
        .ok (learned leftStatus) ∧
      cancelRequest leftParsers 65536 "r1" (errorReply .invalidRequest [unknownJson]) =
        .error (.new .invalidRequest controlDiagnostics false none) := by
  have hends : ((machine (plainExchange 200 none)).run (.initial (plainExchange 200 none))
      leftRun).any (fun w => w.record.statusAt w.clock == leftStatus && w.clock == 0 &&
        !w.receiving && w.response.all fun r => r.content == [104, 105]) = true := by
    decide +kernel
  obtain ⟨w, hw, hall⟩ := (Option.any_eq_true _ _).mp hends
  simp only [Bool.and_eq_true, beq_iff_eq, Bool.not_eq_true'] at hall
  obtain ⟨⟨⟨hstatus, hclock⟩, hreceiving⟩, hresponse⟩ := hall
  have hcontent : ∀ r ∈ w.response, r.content.length ≤ maxSafe := by
    intro r hr
    rw [Option.mem_def.mp hr] at hresponse
    have hbody : r.content = [104, 105] := beq_iff_eq.mp hresponse
    rw [hbody]
    decide
  have hsize : (plainFinalBytes none).length ≤ FrameReader.maxMetadataBytes := by decide +kernel
  have hread : ReadsStatus leftCodec leftParsers (w.record.statusAt w.clock) := by
    rw [hstatus]
    intro _ _
    rw [left_written]
    simp only [leftParsers, if_true]
    rfl
  have hjson : (leftJson.map fun b => [b]).flatten =
      leftCodec.status (w.record.statusAt w.clock) := by
    rw [single_bytes, hstatus, left_written]
  have hshort : (leftJson.map fun b => [b]).flatten.length ≤ 65536 := by
    rw [single_bytes]
    decide +kernel
  have hunknown : leftParsers.error (leftCodec.error (.fromCode .invalidRequest)) =
      .accepted ⟨.invalidRequest, none⟩ := by
    rw [unknown_written]
    simp only [leftParsers, if_true]
  obtain ⟨htold, -, hrefused⟩ := status_reported (plainCodec_bounded 200 hsize) hw
    (by rw [hclock]; decide) (fun revision hmem => by simp [leftRun] at hmem) hcontent
    (plain_issued 200 none) hread
  refine ⟨w, hw, hreceiving, ?_, ?_⟩
  · rw [← hstatus]
    exact (htold (leftJson.map fun b => [b]) hjson hshort).1
  · exact (hrefused (.fromCode .invalidRequest) [unknownJson] hunknown
      (List.flatten_singleton.trans unknown_written.symm) (by decide +kernel)).2

end StatusReports
