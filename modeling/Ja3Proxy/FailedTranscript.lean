import Ja3Proxy.ResponseTranscript

/-! What the stream of a failed request has told before its last frame. The head, where there is
one, is the one of the response, and the last diagnostics still describe the request. -/
namespace FailedTranscript

open FrameReader (Bytes frame maxDataBytes maxMetadataBytes)
open RequestRecord ResponseHeaders ResponseStream ResponseTranscript TransitionRuns TransportErrors
open WordArithmetic (saturatingAdd saturatingAdd_lt)

variable {x : Exchange} {w v : World} {s : Seen} {d d' : Diagnostics} {limit : ℕ}

def Named (x : Exchange) (d : Diagnostics) : Prop :=
  d.tlsProfile = x.owner.profile.name ∨ d.tlsProfile = "" ∧ d.delivery = .notStarted

def halted : Stage → Bool
  | .stopped (some _) | .reported | .gone => true
  | _ => false

def fresh : Stage → Bool
  | .queued | .preparing => true
  | _ => false

structure Frames (x : Exchange) (s : Seen) : Prop where
  head : ∀ json, frame 1 json ∈ s.sent → ∃ r value, s.response = some r ∧
    HeadOf x s.limit r value ∧ json = x.codec.metadata value ∧ Answered x s.record.diagnostics
  data : ∀ payload, frame 2 payload ∈ s.sent → ∃ r, s.response = some r ∧ r.content ≠ []

def Counted (w : World) : Prop := ∀ n, (∀ r ∈ w.response, r.content.length ≤ n) →
  w.record.diagnostics.responseBytes ≤ n

def Short (w : World) : Prop :=
  w.record.finished ≠ none → ∀ e ∈ w.record.error, e.message.utf8ByteSize ≤ 256

structure Told (x : Exchange) (limit : ℕ) (w : World) : Prop where
  early : fresh w.stage = true → w.record.diagnostics.delivery = .notStarted
  kept : Kept x limit w.record.diagnostics
  named : Named x w.record.diagnostics
  counted : Counted w
  short : Short w
  frames : Frames x (seen limit w)

theorem frame_inj {kind kind' : UInt8} {payload payload' : Bytes}
    (h : frame kind payload = frame kind' payload') : kind = kind' ∧ payload = payload' := by
  simp only [frame, List.cons_append, List.cons.injEq] at h
  refine ⟨h.1, ?_⟩
  exact (List.append_inj h.2 rfl).2

theorem frames_nil (h : s.sent = []) : Frames x s := by
  constructor
  · intro json hjson
    rw [h] at hjson
    cases hjson
  · intro payload hpayload
    rw [h] at hpayload
    cases hpayload

theorem frames_forwarded {r : Upstream} {value : ResponseMetadata} {payloads pending : List Bytes}
    {rest : List BodyItem} {count : ℕ} (h : Forwarded x s r value payloads pending rest count) :
    Frames x s := by
  constructor
  · intro json hjson
    rw [h.sent, List.mem_cons, List.mem_map] at hjson
    rcases hjson with heq | ⟨payload, -, heq⟩
    · exact ⟨r, value, h.response, h.head, (frame_inj heq).2, h.answered⟩
    · exact absurd (frame_inj heq).1 (by decide)
  · intro payload hpayload
    rw [h.sent, List.mem_cons, List.mem_map] at hpayload
    rcases hpayload with heq | ⟨payload', hmem, heq⟩
    · exact absurd (frame_inj heq).1 (by decide)
    · obtain ⟨before, hbody, -, hdata⟩ := h.body
      refine ⟨r, h.response, ?_⟩
      have hcut := h.cut payload' (List.mem_append_left _ hmem)
      intro hnil
      have hbefore : before.flatMap BodyItem.data = [] := by
        rw [Upstream.content, hbody, List.flatMap_append, List.append_eq_nil_iff] at hnil
        exact hnil.1
      rw [hbefore, List.flatten_eq_nil_iff] at hdata
      have hempty := hdata payload' (List.mem_append_left _ hmem)
      rw [hempty] at hcut
      exact absurd hcut.1 (by decide)

/-- The bytes in front of the items that are left, and those of the next one. -/
theorem forwarded_length {r : Upstream} {value : ResponseMetadata} {payloads pending : List Bytes}
    {rest : List BodyItem} {count : ℕ} (h : Forwarded x s r value payloads pending rest count) :
    count + (rest.flatMap BodyItem.data).length = r.content.length := by
  obtain ⟨before, hbody, -, hdata⟩ := h.body
  rw [h.length, hdata, Upstream.content, hbody, List.flatMap_append, List.length_append]

/-- A worker that still runs has told what its stage says. -/
theorem told_of_stage (h : StageOk x (seen limit w) w.stage) (hhalt : halted w.stage = false)
    (hearly : fresh w.stage = true → w.record.diagnostics.delivery = .notStarted) :
    Told x limit w := by
  have hkept : Kept x limit w.record.diagnostics := h.begun.1.kept
  have hshort : Short w := fun hfinal => absurd h.begun.1.finished hfinal
  have unread : w.record.diagnostics.responseBytes = 0 → Counted w := by
    intro hzero n _
    rw [hzero]
    exact Nat.zero_le n
  have located : ∀ {profile}, Waiting x (seen limit w) profile → profile = x.owner.profile.name →
      Told x limit w := fun hw hprofile =>
    ⟨hearly, hkept, .inl (hw.profile.trans hprofile), unread hw.bytes, hshort, frames_nil hw.sent⟩
  have unlocated : Waiting x (seen limit w) x.diagnostics.tlsProfile →
      w.record.diagnostics.delivery = .notStarted → Told x limit w := by
    intro hw hdelivery
    refine ⟨hearly, hkept, ?_, unread hw.bytes, hshort, frames_nil hw.sent⟩
    have hprofile : w.record.diagnostics.tlsProfile = x.diagnostics.tlsProfile := hw.profile
    unfold Exchange.diagnostics at hprofile
    unfold Named Owner.profile
    cases howner : x.owner with
    | connection profile =>
      rw [howner] at hprofile
      exact .inl hprofile
    | context contextId profile =>
      rw [howner] at hprofile
      exact .inr ⟨hprofile, hdelivery⟩
  have forwarded : ∀ {r value payloads pending rest count},
      Forwarded x (seen limit w) r value payloads pending rest count → Told x limit w := by
    intro r value payloads pending rest count hf
    refine ⟨hearly, hkept, .inl hf.answered.profile, ?_, hshort, frames_forwarded hf⟩
    intro n hn
    have hcounted : w.record.diagnostics.responseBytes = count := hf.counted
    have hlength := forwarded_length hf
    have hle := hn r hf.response
    omega
  cases hstage : w.stage with
  | queued =>
    rw [hstage] at h
    exact unlocated h (hearly (by rw [hstage]; rfl))
  | preparing =>
    rw [hstage] at h
    exact unlocated h (hearly (by rw [hstage]; rfl))
  | located =>
    rw [hstage] at h
    exact located h rfl
  | working =>
    rw [hstage] at h
    exact located h rfl
  | uploading =>
    rw [hstage] at h
    exact located h.1 rfl
  | opening =>
    rw [hstage] at h
    exact located h.1 rfl
  | sendingHead head =>
    rw [hstage] at h
    obtain ⟨-, r, value, hheaded, hsent, hzero, -⟩ := h
    exact ⟨hearly, hkept, .inl hheaded.answered.profile, unread hzero, hshort, frames_nil hsent⟩
  | pulling rest count =>
    rw [hstage] at h
    obtain ⟨-, r, value, payloads, hf⟩ := h
    exact forwarded hf
  | sending frames rest count =>
    rw [hstage] at h
    obtain ⟨-, r, value, payloads, pending, -, hf⟩ := h
    exact forwarded hf
  | stopped error =>
    cases error with
    | none =>
      rw [hstage] at h
      obtain ⟨-, r, value, payloads, count, hf⟩ := h
      exact forwarded hf
    | some error =>
      rw [hstage] at hhalt
      cases hhalt
  | reported =>
    rw [hstage] at hhalt
    cases hhalt
  | gone =>
    rw [hstage] at hhalt
    cases hhalt

structure Quiet (x : Exchange) (limit : ℕ) (w v : World) : Prop where
  profile : v.record.diagnostics.tlsProfile = w.record.diagnostics.tlsProfile
  delivery : v.record.diagnostics.delivery = w.record.diagnostics.delivery
  kept : Kept x limit w.record.diagnostics → Kept x limit v.record.diagnostics
  counted : Counted w → Counted v
  short : Short w → Short v
  response : v.response = w.response
  sent : ∀ f ∈ v.yielded ++ v.channel, f ∈ w.yielded ++ w.channel

theorem Quiet.goto (w : World) (stage : Stage) : Quiet x limit w (w.goto stage) :=
  ⟨rfl, rfl, id, id, id, rfl, fun _ => id⟩

theorem Quiet.update {f : Diagnostics → Diagnostics} (stage : Stage)
    (hopen : w.record.finished = none)
    (hprofile : (f w.record.diagnostics).tlsProfile = w.record.diagnostics.tlsProfile)
    (hdelivery : (f w.record.diagnostics).delivery = w.record.diagnostics.delivery)
    (hkept : Kept x limit w.record.diagnostics → Kept x limit (f w.record.diagnostics))
    (hcounted : ∀ n, (∀ r ∈ w.response, r.content.length ≤ n) →
      (f w.record.diagnostics).responseBytes ≤ n) :
    Quiet x limit w ((w.update f).goto stage) := by
  obtain ⟨hd, hstill⟩ := update_open hopen f
  refine ⟨(congrArg Diagnostics.tlsProfile hd).trans hprofile,
    (congrArg Diagnostics.delivery hd).trans hdelivery, fun h => hd ▸ hkept h, ?_,
    fun _ hfinal => absurd hstill hfinal, rfl, fun _ => id⟩
  intro _ n hn
  exact Nat.le_trans (Nat.le_of_eq (congrArg Diagnostics.responseBytes hd)) (hcounted n hn)

theorem fresh_of_halted {stage : Stage} (h : halted stage = true) : fresh stage = false := by
  cases stage <;> first | rfl | cases h

/-- Told things stay told when the worker has halted. -/
theorem Told.quiet (h : Told x limit w) (hq : Quiet x limit w v) (hhalt : halted v.stage = true) :
    Told x limit v := by
  refine ⟨?_, hq.kept h.kept, ?_, hq.counted h.counted, hq.short h.short, ⟨?_, ?_⟩⟩
  · intro hfresh
    rw [fresh_of_halted hhalt] at hfresh
    cases hfresh
  · unfold Named
    rw [hq.profile, hq.delivery]
    exact h.named
  · intro json hjson
    obtain ⟨r, value, hr, hhead, hsame, ha⟩ := h.frames.head json (hq.sent _ hjson)
    exact ⟨r, value, hq.response.trans hr, hhead, hsame, hq.profile.trans ha.profile,
      hq.delivery.trans ha.delivery⟩
  · intro payload hpayload
    obtain ⟨r, hr, hne⟩ := h.frames.data payload (hq.sent _ hpayload)
    exact ⟨r, hq.response.trans hr, hne⟩

theorem sendRest_running (frames : List Bytes) (rest : List BodyItem) (count : ℕ) :
    halted (sendRest frames rest count) = false ∧ fresh (sendRest frames rest count) = false := by
  cases frames <;> exact ⟨rfl, rfl⟩

theorem openResponse_quiet {r : Upstream} {revision : Option ℕ}
    (hhalt : halted (openResponse x w r revision).stage = true) :
    Quiet x limit w (openResponse x w r revision) := by
  unfold openResponse at hhalt ⊢
  split
  next heq =>
    rw [heq] at hhalt
    cases hhalt
  next => exact .goto w _

/-- A chunk that is too large is still counted. -/
theorem pull_quiet {rest : List BodyItem} {count : ℕ}
    (hstage : StageOk x (seen limit w) (.pulling rest count))
    (hhalt : halted (ResponseStream.pull x w rest count).stage = true) :
    Quiet x limit w (ResponseStream.pull x w rest count) := by
  obtain ⟨hopen, r, value, payloads, hf⟩ := hstage
  unfold ResponseStream.pull at hhalt ⊢
  split
  next => cases hhalt
  next => exact .goto w _
  next data rest =>
    split
    next =>
      refine .update _ hopen rfl rfl (fun h => h.countResponse (saturatingAdd_lt _ _)) ?_
      intro n hn
      have hlength := forwarded_length hf
      have hle := hn r hf.response
      have hmin : saturatingAdd count data.length ≤ count + data.length := Nat.min_le_left _ _
      simp only [List.flatMap_cons, BodyItem.data, List.length_append] at hlength
      exact Nat.le_trans hmin (by omega)
    next hle =>
      simp only [if_neg hle, World.goto, (sendRest_running _ _ _).1] at hhalt
      cases hhalt

theorem handOver_quiet {bytes : Bytes} {stage : Stage} (hstage : halted stage = false)
    (hv : handOver w bytes stage = some v) (hhalt : halted v.stage = true) : Quiet x limit w v := by
  unfold handOver at hv
  split at hv
  · split at hv
    · cases hv
      rw [hstage] at hhalt
      cases hhalt
    · cases hv
  · cases hv
    exact .goto w _

theorem report_quiet (hnow : w.clock / 1000000 ≤ limit) {error : Option TransportError}
    (hstage : StageOk x (seen limit w) (.stopped error)) : Quiet x limit w (report x w error) := by
  have hopen : w.record.finished = none := hstage.begun.1.finished
  obtain ⟨hretimed, hkept, -⟩ := closed_diagnostics (x := x) hnow hopen error
  refine ⟨hretimed.profile, hretimed.delivery, hkept, ?_, ?_, rfl, fun _ => id⟩
  · intro hcounted n hn
    exact Nat.le_trans (Nat.le_of_eq hretimed.bytes) (hcounted n hn)
  · intro _ _ e he
    have herror := (closed_status hopen error).2.1
    cases error with
    | none =>
      rw [show (report x w none).record.error = none from herror] at he
      cases he
    | some error =>
      rw [show (report x w (some error)).record.error = _ from herror] at he
      cases he
      exact hstage.2.1

theorem Quiet.trans {u : World} (h : Quiet x limit w u) (k : Quiet x limit u v) :
    Quiet x limit w v :=
  ⟨k.profile.trans h.profile, k.delivery.trans h.delivery, k.kept ∘ h.kept, k.counted ∘ h.counted,
    k.short ∘ h.short, k.response.trans h.response, fun f hf => h.sent f (k.sent f hf)⟩

/-- A step that ends the worker, or comes behind its end, tells nothing new. -/
theorem work_quiet (h : Invariant x limit w) {e : Event} (hwithin : Within limit w e v)
    (hv : work x w e = some v) (hhalt : halted v.stage = true) : Quiet x limit w v := by
  obtain ⟨hnow, hrevised⟩ := hwithin
  cases e with
  | absorbed revision =>
    simp only [work] at hv
    split at hv
    next r hstage hresponse =>
      cases hv
      have hopen := (h.at hstage (by simp) (by simp)).begun.1.finished
      have hupdate : Quiet x limit w ((w.update (startBody revision)).goto w.stage) := by
        refine .update _ hopen rfl rfl (fun hk => hk.startBody ?_) ?_
        · rintro n ⟨⟩
          exact hrevised n (.inr rfl)
        · intro n _
          have hzero : w.record.diagnostics.responseBytes = 0 :=
            (h.at hstage (by simp) (by simp)).1.bytes
          exact Nat.le_trans (Nat.le_of_eq hzero) (Nat.zero_le n)
      exact hupdate.trans (openResponse_quiet hhalt)
    next => cases hv
  | pull =>
    simp only [work] at hv
    split at hv
    next rest count hstage =>
      cases hv
      exact pull_quiet (h.at hstage (by simp) (by simp)) hhalt
    next => cases hv
  | handOver =>
    simp only [work] at hv
    split at hv
    · exact handOver_quiet rfl hv hhalt
    · exact handOver_quiet (sendRest_running _ _ _).1 hv hhalt
    · cases hv
  | report =>
    simp only [work] at hv
    split at hv
    next error hstage =>
      cases hv
      exact report_quiet hnow (h.at hstage (by simp) (by simp))
    next => cases hv
  | leave =>
    simp only [work] at hv
    split at hv
    next hstage =>
      cases hv
      obtain ⟨-, hended⟩ := h.sender.resolve_left fun hg => absurd (hstage.symm.trans hg) (by simp)
      have hfinal : w.record.finished ≠ none := (h.reported (.inl hstage) hended).2.1
      have hsame : (w.record.finish w.clock (some (.fromCode .cancelled))).1 = w.record := by
        rw [finish_finished hfinal]
      rw [hsame]
      exact ⟨rfl, rfl, id, id, id, rfl, fun _ => id⟩
    next => cases hv
  | fail fault =>
    simp only [work] at hv
    split at hv
    all_goals
      cases hv
      try exact .goto w _
  | stop signal =>
    simp only [work] at hv
    split at hv
    · cases hv
      exact .goto w _
    · cases hv
  | respond response =>
    simp only [work] at hv
    split at hv
    next =>
      cases hv
      exact absurd hhalt (by cases w.uploaded <;> simp [halted])
    next => cases hv
  | _ =>
    simp only [work] at hv
    repeat' split at hv
    all_goals
      cases hv
      try exact absurd hhalt (by simp_all [World.update, World.goto, halted])

theorem handOver_fresh {bytes : Bytes} {stage : Stage} (hstage : fresh stage = false)
    (hv : handOver w bytes stage = some v) : fresh v.stage = false := by
  unfold handOver at hv
  split at hv
  · split at hv
    · cases hv
      exact hstage
    · cases hv
  · cases hv
    rfl

/-- Only admission leads to a fresh stage. -/
theorem fresh_step {e : Event} (hv : work x w e = some v) :
    fresh v.stage = false ∨ w.stage = .queued ∧
      v = (w.update (leaveQueue x.queued w.clock)).goto .preparing := by
  cases e with
  | admitted =>
    simp only [work] at hv
    split at hv
    next hstage =>
      cases hv
      exact .inr ⟨hstage, rfl⟩
    next => cases hv
  | absorbed revision =>
    simp only [work] at hv
    split at hv
    · cases hv
      unfold openResponse
      split <;> exact .inl rfl
    · cases hv
  | pull =>
    simp only [work] at hv
    split at hv
    · cases hv
      unfold ResponseStream.pull
      split
      · exact .inl rfl
      · exact .inl rfl
      · split
        · exact .inl rfl
        · exact .inl (sendRest_running _ _ _).2
    · cases hv
  | handOver =>
    simp only [work] at hv
    split at hv
    · exact .inl (handOver_fresh rfl hv)
    · exact .inl (handOver_fresh (sendRest_running _ _ _).2 hv)
    · cases hv
  | respond response =>
    simp only [work] at hv
    split at hv
    · cases hv
      cases huploaded : w.uploaded <;> exact .inl rfl
    · cases hv
  | _ =>
    simp only [work] at hv
    repeat' split at hv
    all_goals
      cases hv
      try first | exact .inl rfl | simp_all [World.update, fresh]

theorem told_work (h : Invariant x limit w) (hnext : Invariant x limit v) (ht : Told x limit w)
    {e : Event} (hwithin : Within limit w e v) (hv : work x w e = some v) : Told x limit v := by
  cases hhalt : halted v.stage with
  | true => exact ht.quiet (work_quiet h hwithin hv hhalt) hhalt
  | false =>
    have hstage : StageOk x (seen limit v) v.stage := by
      apply hnext.running
      · intro heq
        rw [heq] at hhalt
        cases hhalt
      · intro heq
        rw [heq] at hhalt
        cases hhalt
    refine told_of_stage hstage hhalt fun hfresh => ?_
    rcases fresh_step hv with hstale | ⟨hqueued, rfl⟩
    · rw [hstale] at hfresh
      cases hfresh
    · have hopen := (h.at hqueued (by simp) (by simp)).begun.1.finished
      have hd := (update_open hopen (leaveQueue x.queued w.clock)).1
      have hdelivery := ht.early (by rw [hqueued]; rfl)
      exact (congrArg Diagnostics.delivery hd).trans hdelivery

/-- The frames may become fewer, or get a last frame of another kind. -/
theorem Told.resent (h : Told x limit w) (hrecord : v.record = w.record)
    (hstage : v.stage = w.stage)
    (hresponse : v.response = w.response)
    (hsent : ∀ f ∈ v.yielded ++ v.channel, f ∈ w.yielded ++ w.channel ∨
      ∃ kind payload, f = frame kind payload ∧ kind ≠ 1 ∧ kind ≠ 2) : Told x limit v := by
  refine ⟨?_, ?_, ?_, ?_, ?_, ⟨?_, ?_⟩⟩
  · rw [hstage, hrecord]
    exact h.early
  · rw [hrecord]
    exact h.kept
  · rw [hrecord]
    exact h.named
  · unfold Counted
    rw [hrecord, hresponse]
    exact h.counted
  · unfold Short
    rw [hrecord]
    exact h.short
  · intro json hjson
    rcases hsent _ hjson with hold | ⟨kind, payload, heq, hone, -⟩
    · obtain ⟨r, value, hr, hhead, hsame, ha⟩ := h.frames.head json hold
      exact ⟨r, value, hresponse.trans hr, hhead, hsame, by rw [seen, hrecord]; exact ha⟩
    · exact absurd (frame_inj heq).1.symm hone
  · intro payload hpayload
    rcases hsent _ hpayload with hold | ⟨kind, last, heq, -, htwo⟩
    · obtain ⟨r, hr, hne⟩ := h.frames.data payload hold
      exact ⟨r, hresponse.trans hr, hne⟩
    · exact absurd (frame_inj heq).1.symm htwo

def Heard (x : Exchange) (limit : ℕ) (w : World) : Prop :=
  w.receiving = true ∧ Invariant x limit w ∧ Told x limit w ∨ w.receiving = false ∧ w.ended = false

theorem lastFrame_kind (c : Codec) (status : RequestStatus) :
    ∃ kind payload, lastFrame c status = frame kind payload ∧ kind ≠ 1 ∧ kind ≠ 2 := by
  unfold lastFrame
  split
  · exact ⟨4, _, rfl, by decide, by decide⟩
  · exact ⟨3, _, rfl, by decide, by decide⟩

theorem told_receive (h : Invariant x limit w) (ht : Told x limit w)
    (hreceiving : w.receiving = true)
    (hv : consume w .receive = some v) : Told x limit v := by
  simp only [consume] at hv
  split at hv
  next hopen =>
    have hended : w.ended = false := by simpa [hreceiving] using hopen
    split at hv
    next bytes channel hchannel =>
      cases hv
      refine ht.resent rfl rfl rfl fun f hf => .inl ?_
      simpa [hchannel] using hf
    next hchannel =>
      split at hv
      next => cases hv
      next hsender =>
        cases hv
        have hgone : w.stage = .gone := h.sender.resolve_right fun hs => hsender hs.1
        have hterminal := (h.reported (.inr hgone) hended).1
        refine ht.resent rfl rfl rfl fun f hf => ?_
        simp only [hchannel, hterminal, Option.toList_some, List.append_nil, List.mem_append,
          List.mem_singleton] at hf ⊢
        rcases hf with hold | rfl
        · exact .inl hold
        · exact .inr (lastFrame_kind _ _)
  next => cases hv

theorem heard_consume (h : Heard x limit w) {e : Event} (hv : consume w e = some v) :
    Heard x limit v := by
  have hobserved : Observed x limit w := h.imp (fun ⟨hopen, hinv, _⟩ => ⟨hopen, hinv⟩) id
  have hlater := consume_step hobserved hv
  rcases h with ⟨hopen, hinv, ht⟩ | ⟨hgone, hend⟩
  · rcases hlater with ⟨hopen', hinv'⟩ | hgone'
    · refine .inl ⟨hopen', hinv', ?_⟩
      cases e with
      | tick elapsed =>
        cases hv
        exact ht.resent rfl rfl rfl fun f hf => .inl hf
      | receive => exact told_receive hinv ht hopen hv
      | dropBody =>
        simp only [consume] at hv
        split at hv
        · cases hv
        · cases hv
          cases hopen'
      | _ => cases hv
    · exact .inr hgone'
  · rcases hlater with ⟨hopen', -⟩ | hgone'
    · exfalso
      cases e with
      | tick elapsed =>
        cases hv
        rw [hgone] at hopen'
        cases hopen'
      | receive => simp [consume, hgone] at hv
      | dropBody =>
        simp only [consume] at hv
        split at hv
        · cases hv
        · cases hv
          cases hopen'
      | _ => cases hv
    · exact .inr hgone'

theorem heard_step (hcodec : x.codec.Bounded) (h : Heard x limit w) {e : Event}
    (hwithin : Within limit w e v) (hv : next x w e = some v) : Heard x limit v := by
  unfold next at hv
  split at hv
  next u hwork =>
    cases hv
    obtain ⟨-, hreceiving, hended⟩ := work_same hwork
    rcases h with ⟨hopen, hinv, ht⟩ | ⟨hgone, hend⟩
    · have hnext := work_step hcodec hinv hopen hwithin hwork
      exact .inl ⟨hreceiving.trans hopen, hnext, told_work hinv hnext ht hwithin hwork⟩
    · exact .inr ⟨hreceiving.trans hgone, hended.trans hend⟩
  next => exact heard_consume h hv

theorem heard_initial (hclock : x.clock / 1000000 ≤ limit) : Heard x limit (.initial x) := by
  have hinv := invariant_initial hclock
  have hstage : StageOk x (seen limit (.initial x)) (World.initial x).stage :=
    hinv.running (by simp [World.initial]) (by simp [World.initial])
  exact .inl ⟨rfl, hinv, told_of_stage hstage rfl fun _ => rfl⟩

theorem heard_run (hcodec : x.codec.Bounded) {es : List Event}
    (hrun : (machine x).run (.initial x) es = some w) (hclock : w.clock / 1000000 ≤ limit)
    (hrevised : ∀ revision, .cookies revision ∈ es ∨ .absorbed (some revision) ∈ es →
      revision.toNat ≤ limit) : Heard x limit w := by
  obtain ⟨hle, halong⟩ := along_within hrun hclock hrevised
  have hstart : x.clock / 1000000 ≤ limit := Nat.le_trans (Nat.div_le_div_right hle) hclock
  exact Machine.run_preserves_along (P := Heard x limit)
    (fun _ _ _ hs hc hn => heard_step hcodec hs hc hn) (heard_initial hstart) halong hrun

structure Failed (x : Exchange) (limit : ℕ) (w : World) (t : Transcript) (error : TransportError) :
    Prop where
  frames : w.yielded = t.frames
  last : t.last = frame 4 (x.codec.error error)
  diagnostics : error.diagnostics = some w.record.diagnostics
  headed : t.head = none → t.payloads = []
  cut : Cut t.payloads
  total : t.payloads.flatten.length ≤ x.maxResponseBytes
  size : (x.codec.error error).length ≤ maxMetadataBytes
  told : Told x limit w

/-- A stream that ends in an error is the beginning of a response, and its diagnostics describe
the request. -/
theorem failed_of_ended (hcodec : x.codec.Bounded) {es : List Event}
    (hrun : (machine x).run (.initial x) es = some w) (hended : w.ended = true)
    (hclock : w.clock / 1000000 ≤ limit)
    (hrevised : ∀ revision, .cookies revision ∈ es ∨ .absorbed (some revision) ∈ es →
      revision.toNat ≤ limit) {error : TransportError} (herror : w.record.error = some error) :
    ∃ t, Failed x limit w t error := by
  obtain ⟨t, hframes, hheaded, hcut, htotal, -, hfinal, hends⟩ :=
    transcript_of_ended hcodec hrun hended hclock hrevised
  have hheard := heard_run hcodec hrun hclock hrevised
  rcases hheard with ⟨-, -, htold⟩ | ⟨-, hopen⟩
  · rcases hends with ⟨error', herror', hdiag, hlast⟩ | ⟨r, value, hs⟩
    · obtain rfl := Option.some.inj (herror'.symm.trans herror)
      have hsize : (x.codec.error error').length ≤ maxMetadataBytes := by
        refine hcodec.error error' (htold.short hfinal error' herror) ?_
        rw [hdiag]
        rintro d ⟨⟩
        exact htold.kept.toSmall
      exact ⟨t, hframes, hlast, hdiag, hheaded, hcut, htotal, hsize, htold⟩
    · have hnone : w.record.error = none := hs.error
      rw [hnone] at herror
      cases herror
  · rw [hended] at hopen
    cases hopen

end FailedTranscript
