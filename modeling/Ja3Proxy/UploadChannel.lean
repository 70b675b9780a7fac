import Ja3Proxy.FrameReader
import Ja3Proxy.TransitionRuns

/-! The body channel between `FrameReader::upload` and the HTTP client (`transfer`).
The producer and the consumer of the body stream are independent tasks. The channel has
one slot, and dropping the upload future drops the sender. -/
namespace UploadChannel

open TransportErrors FrameReader TransitionRuns

abbrev Item := Except TransportError Bytes

/-- Where `upload` stands. Waiting for input inside a frame is part of `reading`: until the
payload is complete nothing of the frame is visible outside. -/
inductive Producer where
  | reading (frames : ℕ) (reader : Reader) (count : ℕ)
  | sending (payload : Bytes) (frames : ℕ) (reader : Reader) (count : ℕ)
  | returned (result : Except TransportError Unit)
  | cancelled

def Producer.finished : Producer → Bool
  | .returned _ | .cancelled => true
  | _ => false

structure World where
  producer : Producer
  /-- The `request_bytes` of the record's diagnostics. -/
  requestBytes : ℕ
  queue : List Item
  receiving : Bool
  received : List Item
  ended : Bool

structure Transfer where
  terms : Terms
  reader : Reader
  cancellable : Bool

inductive Event where
  | poll
  | handOver
  | cancel
  | receive
  | dropBody
  deriving DecidableEq, Repr

def World.initial (t : Transfer) : World where
  producer := .reading maxUploadFrames t.reader 0
  requestBytes := 0
  queue := []
  receiving := t.terms.hasBody
  received := []
  ended := false

def poll (u : Terms) (w : World) : Option World :=
  match w.producer with
  | .reading 0 _ _ => some { w with producer := .returned (.error protocolError) }
  | .reading (frames + 1) r count =>
    match u.uploadFrame r count with
    | .error e => some { w with producer := .returned (.error e) }
    | .ok none => some { w with producer := .returned (.ok ()) }
    | .ok (some (payload, r, count)) => some { w with
        requestBytes := count
        producer := if payload.isEmpty then .reading frames r count
          else .sending payload frames r count }
  | _ => none

/-- `sender.send(Ok(payload)).await`, whose failure is ignored. -/
def handOver (w : World) : Option World :=
  match w.producer with
  | .sending payload frames r count =>
    if w.receiving then
      if w.queue.length < 1 then
        some { w with queue := w.queue ++ [.ok payload], producer := .reading frames r count }
      else none
    else some { w with producer := .reading frames r count }
  | _ => none

/-- `receiver.recv().await` inside the body stream: an item, the end, or still pending. -/
def receive (w : World) : Option World :=
  if w.receiving && !w.ended then
    match w.queue with
    | item :: queue => some { w with queue := queue, received := w.received ++ [item] }
    | [] => if w.producer.finished then some { w with ended := true } else none
  else none

def next (t : Transfer) (w : World) : Event → Option World
  | .poll => poll t.terms w
  | .handOver => handOver w
  | .cancel =>
    if t.cancellable && !w.producer.finished then some { w with producer := .cancelled } else none
  | .receive => receive w
  | .dropBody =>
    if w.receiving then some { w with receiving := false, queue := [] } else none

def machine (t : Transfer) : Machine World Event := ⟨.initial t, next t⟩

def EndsCleanly (w : World) : Prop := w.ended = true ∧ ∀ item ∈ w.received, ∃ b, item = .ok b

/-- However the tasks interleave, a body that ends cleanly was validated to its end. -/
def Honest (t : Transfer) : Prop :=
  ∀ w, (machine t).Reachable w → EndsCleanly w → w.producer = .returned (.ok ())

def Producer.outcome (u : Terms) : Producer → Option (Except TransportError Unit)
  | .reading frames r count => some (u.upload frames r count)
  | .sending _ frames r count => some (u.upload frames r count)
  | .returned result => some result
  | .cancelled => none

theorem poll_outcome {u : Terms} {w v : World} (h : poll u w = some v) :
    v.producer.outcome u = w.producer.outcome u ∧ w.producer.finished = false ∧
      v.ended = w.ended ∧ v.receiving = w.receiving := by
  unfold poll at h
  split at h
  · rename_i r c hp
    obtain rfl := Option.some.inj h
    simp [hp, Producer.outcome, Producer.finished, Terms.upload]
  · rename_i n r c hp
    split at h
    · rename_i e he
      obtain rfl := Option.some.inj h
      simp [hp, Producer.outcome, Producer.finished, Terms.upload, he, Except.bind]
    · rename_i he
      obtain rfl := Option.some.inj h
      simp [hp, Producer.outcome, Producer.finished, Terms.upload, he, Except.bind]
    · rename_i payload r' c' he
      obtain rfl := Option.some.inj h
      by_cases hempty : payload.isEmpty
      · simp [hp, Producer.outcome, Producer.finished, Terms.upload, he, Except.bind, hempty]
      · simp [hp, Producer.outcome, Producer.finished, Terms.upload, he, Except.bind, hempty]
  · cases h

theorem handOver_outcome {u : Terms} {w v : World} (h : handOver w = some v) :
    v.producer.outcome u = w.producer.outcome u ∧ w.producer.finished = false ∧
      v.ended = w.ended ∧ v.receiving = w.receiving := by
  unfold handOver at h
  split at h
  · rename_i payload n r c hp
    split at h
    · split at h
      · obtain rfl := Option.some.inj h
        simp [hp, Producer.outcome, Producer.finished]
      · cases h
    · obtain rfl := Option.some.inj h
      simp [hp, Producer.outcome, Producer.finished]
  · cases h

theorem receive_producer {w v : World} (h : receive w = some v) :
    v.producer = w.producer ∧ w.receiving = true ∧
      (v.ended = true → w.ended = true ∨ w.producer.finished = true) := by
  unfold receive at h
  split at h
  · rename_i hopen
    rw [Bool.and_eq_true] at hopen
    split at h
    · obtain rfl := Option.some.inj h
      exact ⟨rfl, hopen.1, Or.inl⟩
    · split at h
      · rename_i hfin
        obtain rfl := Option.some.inj h
        exact ⟨rfl, hopen.1, fun _ => Or.inr hfin⟩
      · cases h
  · cases h

structure Promised (u : Terms) (w : World) : Prop where
  outcome : w.producer.outcome u = some (.ok ())
  ended_finished : w.ended = true → w.producer.finished = true

theorem promised_step {t : Transfer} (ht : t.cancellable = false) {w v : World} {e : Event}
    (h : Promised t.terms w) (hn : next t w e = some v) : Promised t.terms v := by
  cases e with
  | poll =>
    obtain ⟨hout, hfin, hend, _⟩ := poll_outcome hn
    refine ⟨hout.trans h.outcome, ?_⟩
    intro he
    rw [hend] at he
    rw [h.ended_finished he] at hfin
    cases hfin
  | handOver =>
    obtain ⟨hout, hfin, hend, _⟩ := handOver_outcome (u := t.terms) hn
    refine ⟨hout.trans h.outcome, ?_⟩
    intro he
    rw [hend] at he
    rw [h.ended_finished he] at hfin
    cases hfin
  | cancel => simp [next, ht] at hn
  | receive =>
    obtain ⟨hprod, _, hend⟩ := receive_producer hn
    refine ⟨by rw [hprod]; exact h.outcome, ?_⟩
    intro he
    rw [hprod]
    rcases hend he with he | hfin
    · exact h.ended_finished he
    · exact hfin
  | dropBody =>
    simp only [next] at hn
    split at hn
    · obtain rfl := Option.some.inj hn
      exact ⟨h.outcome, h.ended_finished⟩
    · cases hn

theorem Promised.returned {u : Terms} {w : World} (h : Promised u w) (he : w.ended = true) :
    w.producer = .returned (.ok ()) := by
  have hout := h.outcome
  have hfin := h.ended_finished he
  cases hp : w.producer with
  | reading => simp [hp, Producer.finished] at hfin
  | sending => simp [hp, Producer.finished] at hfin
  | returned result =>
    rw [hp] at hout
    rw [Option.some.inj hout]
  | cancelled => simp [hp, Producer.outcome] at hout

theorem honest_of_accepted {t : Transfer} (ht : t.cancellable = false)
    (h : Accepted t.terms t.reader) : Honest t := by
  intro w hw hclean
  have hstart : Promised t.terms (World.initial t) :=
    ⟨congrArg some ((upload_ok_iff _ _).mpr h), by simp [World.initial]⟩
  have hpromise : Promised t.terms w :=
    Machine.reachable_preserves (M := machine t) hstart (fun _ _ _ => promised_step ht) hw
  exact hpromise.returned hclean.1

/-- Without a body no stream is built and nobody can see its end. -/
theorem honest_of_no_body {t : Transfer} (ht : t.terms.hasBody = false) : Honest t := by
  intro w hw hclean
  have hinv : w.receiving = false ∧ w.ended = false := by
    refine Machine.reachable_preserves (M := machine t)
      (P := fun u => u.receiving = false ∧ u.ended = false) ⟨ht, rfl⟩ ?_ hw
    rintro u e v ⟨hclosed, hopen⟩ hn
    cases e with
    | poll =>
      obtain ⟨_, _, hend, hrecv⟩ := poll_outcome hn
      exact ⟨hrecv.trans hclosed, hend.trans hopen⟩
    | handOver =>
      obtain ⟨_, _, hend, hrecv⟩ := handOver_outcome (u := t.terms) hn
      exact ⟨hrecv.trans hclosed, hend.trans hopen⟩
    | cancel =>
      simp only [machine, next] at hn
      split at hn
      · obtain rfl := Option.some.inj hn
        exact ⟨hclosed, hopen⟩
      · cases hn
    | receive =>
      obtain ⟨_, hrecv, _⟩ := receive_producer hn
      rw [hclosed] at hrecv
      cases hrecv
    | dropBody => simp [machine, next, hclosed] at hn
  rw [hclean.1] at hinv
  cases hinv.2

structure Listening (w : World) : Prop where
  queue : w.queue = []
  receiving : w.receiving = true
  ended : w.ended = false
  received : ∀ item ∈ w.received, ∃ b, item = .ok b

theorem listening_end {t : Transfer} {w : World} (h : Listening w)
    (hfin : w.producer.finished = true) :
    ∃ v, next t w .receive = some v ∧ EndsCleanly v ∧ v.producer = w.producer := by
  refine ⟨{ w with ended := true }, ?_, ⟨rfl, h.received⟩, rfl⟩
  simp [next, receive, h.queue, h.receiving, h.ended, hfin]

theorem listening_item {t : Transfer} {w : World} (h : Listening w) {payload : Bytes}
    {frames count : ℕ} {r : Reader} (hp : w.producer = .sending payload frames r count) :
    ∃ v, (machine t).run w [.handOver, .receive] = some v ∧
      v.producer = .reading frames r count ∧ Listening v := by
  let v : World := { w with
    producer := .reading frames r count
    queue := []
    received := w.received ++ [.ok payload] }
  refine ⟨v, ?_, rfl, rfl, h.receiving, h.ended, ?_⟩
  · simp [v, Machine.run, machine, next, handOver, receive, hp, h.queue, h.receiving, h.ended]
  · intro item hitem
    rcases List.mem_append.mp hitem with hitem | hitem
    · exact h.received item hitem
    · exact ⟨payload, List.mem_singleton.mp hitem⟩

/-- A consumer that keeps up sees every payload and then whatever `upload` returns. -/
theorem listening_run {t : Transfer} {frames : ℕ} {r : Reader} {count : ℕ} {w : World}
    (hp : w.producer = .reading frames r count) (h : Listening w) :
    ∃ es v, (machine t).run w es = some v ∧
      v.producer = .returned (t.terms.upload frames r count) ∧ Listening v := by
  induction frames generalizing r count w with
  | zero =>
    refine ⟨[.poll], { w with producer := .returned (.error protocolError) }, ?_, rfl,
      h.queue, h.receiving, h.ended, h.received⟩
    simp [Machine.run, machine, next, poll, hp]
  | succ frames ih =>
    cases hstep : t.terms.uploadFrame r count with
    | error e =>
      refine ⟨[.poll], { w with producer := .returned (.error e) }, ?_, ?_,
        h.queue, h.receiving, h.ended, h.received⟩
      · simp [Machine.run, machine, next, poll, hp, hstep]
      · simp [Terms.upload, hstep, Except.bind]
    | ok step =>
      cases step with
      | none =>
        refine ⟨[.poll], { w with producer := .returned (.ok ()) }, ?_, ?_,
          h.queue, h.receiving, h.ended, h.received⟩
        · simp [Machine.run, machine, next, poll, hp, hstep]
        · simp [Terms.upload, hstep, Except.bind]
      | some step =>
        obtain ⟨payload, r', count'⟩ := step
        have hup : t.terms.upload (frames + 1) r count = t.terms.upload frames r' count' := by
          simp [Terms.upload, hstep, Except.bind]
        rw [hup]
        by_cases hempty : payload.isEmpty
        · obtain ⟨es, v, hrun, hv, hlv⟩ := ih
            (w := { w with requestBytes := count', producer := .reading frames r' count' }) rfl
            ⟨h.queue, h.receiving, h.ended, h.received⟩
          refine ⟨.poll :: es, v, ?_, hv, hlv⟩
          exact (machine t).run_cons_iff.mpr ⟨_, by simp [machine, next, poll, hp, hstep, hempty],
            hrun⟩
        · obtain ⟨u, hrun, hu, hlu⟩ := listening_item (t := t)
            (w := { w with
              requestBytes := count'
              producer := .sending payload frames r' count' })
            ⟨h.queue, h.receiving, h.ended, h.received⟩ rfl
          obtain ⟨es, v, hrest, hv, hlv⟩ := ih hu hlu
          refine ⟨.poll :: ([.handOver, .receive] ++ es), v, ?_, hv, hlv⟩
          exact (machine t).run_cons_iff.mpr ⟨_, by simp [machine, next, poll, hp, hstep, hempty],
            Machine.run_trans hrun hrest⟩

theorem listening_initial {t : Transfer} (ht : t.terms.hasBody = true) :
    Listening (World.initial t) := ⟨rfl, ht, rfl, by simp [World.initial]⟩

theorem reachable_end {t : Transfer} {w : World} (hw : (machine t).Reachable w)
    (h : Listening w) (hfin : w.producer.finished = true) :
    ∃ v, (machine t).Reachable v ∧ EndsCleanly v ∧ v.producer = w.producer := by
  obtain ⟨v, hv, hclean, hprod⟩ := listening_end (t := t) h hfin
  have hrun : (machine t).run w [.receive] = some v :=
    (machine t).run_cons_iff.mpr ⟨v, hv, rfl⟩
  exact ⟨v, hw.run hrun, hclean, hprod⟩

theorem accepted_of_honest {t : Transfer} (ht : t.terms.hasBody = true) (h : Honest t) :
    Accepted t.terms t.reader := by
  obtain ⟨es, w, hrun, hprod, hl⟩ := listening_run (t := t) (w := .initial t) rfl
    (listening_initial ht)
  obtain ⟨v, hv, hclean, hsame⟩ := reachable_end ⟨es, hrun⟩ hl (by simp [hprod, Producer.finished])
  have hok := h v hv hclean
  rw [hsame, hprod, Producer.returned.injEq] at hok
  exact (upload_ok_iff _ _).mp hok

theorem not_cancellable_of_honest {t : Transfer} (ht : t.terms.hasBody = true) (h : Honest t) :
    t.cancellable = false := by
  by_contra hc
  have hcancel : next t (.initial t) .cancel =
      some { World.initial t with producer := .cancelled } := by
    simp [next, World.initial, Producer.finished, hc]
  have hrun : (machine t).run (.initial t) [.cancel] =
      some { World.initial t with producer := .cancelled } :=
    (machine t).run_cons_iff.mpr ⟨_, hcancel, rfl⟩
  obtain ⟨v, hv, hclean, hsame⟩ := reachable_end (t := t) ⟨_, hrun⟩
    (w := { World.initial t with producer := .cancelled })
    ⟨rfl, ht, rfl, by simp [World.initial]⟩ rfl
  have hok := h v hv hclean
  rw [hsame] at hok
  cases hok

/-- A body that ends cleanly vouches for a validated upload exactly when there is no body,
or when the input is accepted and the transfer cannot be cancelled before that is known:
on every other path the sender is dropped and no `Err` item is sent. -/
theorem clean_end_iff_validated (t : Transfer) :
    Honest t ↔ t.terms.hasBody = false ∨
      (t.cancellable = false ∧ Accepted t.terms t.reader) := by
  constructor
  · intro h
    cases ht : t.terms.hasBody with
    | false => exact Or.inl rfl
    | true => exact Or.inr ⟨not_cancellable_of_honest ht h, accepted_of_honest ht h⟩
  · rintro (ht | ⟨ht, hacc⟩)
    · exact honest_of_no_body ht
    · exact honest_of_accepted ht hacc

/-- The truncated data frame of the source's own test: the consumer sees a complete body. -/
def truncated : Transfer where
  terms := ⟨16, true, none⟩
  reader := ⟨[], [.bytes [2, 0, 0, 0, 2, 1]]⟩
  cancellable := false

theorem truncated_upload_ends_cleanly : ¬ Honest truncated := by
  intro h
  have hclean : EndsCleanly { World.initial truncated with
      producer := .returned (.error protocolError), ended := true } :=
    ⟨rfl, by simp [World.initial]⟩
  have hok := h _ ⟨[.poll, .receive], rfl⟩ hclean
  cases hok

end UploadChannel
