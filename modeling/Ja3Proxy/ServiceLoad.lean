import Ja3Proxy.AdmissionInvariant
import Ja3Proxy.ExclusiveOwners
import Ja3Proxy.ServiceConfig

/-! The requests and commands inside the service (`src/handlers.rs`): envelopes, the registry and
admission under one interleaving of all handlers and worker tasks. A step is what one handler or
worker does between two accesses to shared state. Deadlines, cancellation and panics all end a
worker by dropping its execution first, so `stop` may come at any time. -/
namespace ServiceLoad

open ContextHandlers (principal)
open ExclusiveOwners FiniteMaps ServiceConfig TransitionRuns TransportErrors

inductive Stage where
  /-- `request_handler` before `register`. -/
  | reading
  /-- A control command after `control` took its permit. -/
  | control
  /-- Only the return from the handler is left. -/
  | leaving
  | registered (n : ℕ)
  | refused (n : ℕ) (error : TransportError)
  | admitted (n serial : ℕ)
  /-- The spawned worker, whose execution owns the ticket. -/
  | working (n serial : ℕ)
  /-- The execution is dropped and the record is not finished yet. -/
  | stopped (n : ℕ)
  deriving DecidableEq, Repr

def Stage.holdsEnvelope : Stage → Bool
  | .working _ _ | .stopped _ => false
  | _ => true

def Stage.record : Stage → Option ℕ
  | .registered n | .refused n _ | .admitted n _ | .working n _ | .stopped n => some n
  | _ => none

def Stage.ticket : Stage → Option ℕ
  | .admitted _ serial | .working _ serial => some serial
  | _ => none

/-- `permits` is what the semaphore of envelopes has left. -/
structure World where
  permits : ℕ
  registry : RequestRegistry.World
  admission : AdmissionInvariant.World String
  tasks : AList (fun _ : ℕ => Stage)
  arrived : ℕ

def World.initial (c : Config) (clock : ℕ) : World where
  permits := c.maxEnvelopes
  registry := .initial clock
  admission := .initial
  tasks := ∅
  arrived := 0

inductive Action where
  | register (partition : String) (diagnostics : Diagnostics) (started : ℕ)
      (readings : RequestRegistry.Key → ℕ) (now : ℕ)
  | lookup (partition id : String) (readings : RequestRegistry.Key → ℕ) (now : ℕ)
  | enter
  | dropEnvelope
  | start
  | update (f : Diagnostics → Diagnostics)
  | stop
  | report (now : ℕ) (error : Option TransportError)
  | leave

inductive Event where
  | arrive (stage : Stage)
  | step (t : ℕ) (action : Action)
  | cleanup (readings : RequestRegistry.Key → ℕ) (now : ℕ)

/-- `format!("{PRINCIPAL}:{}", metadata.partition)` -/
def admissionKey (partition : String) : String := principal ++ ":" ++ partition

def World.record (c : Config) (w : World) (e : RequestRegistry.Event) : Option World :=
  (RequestRegistry.next c.registry w.registry e).map fun r => { w with registry := r }

def World.enterAdmission (c : Config) (w : World) (e : AdmissionInvariant.Event String) :
    Option World :=
  (AdmissionInvariant.next c.limits w.admission e).map fun a => { w with admission := a }

def World.register (c : Config) (w : World) (partition : String) (d : Diagnostics) (started : ℕ)
    (readings : RequestRegistry.Key → ℕ) (now : ℕ) : World × Option Stage :=
  match RequestRegistry.register c.registry w.registry principal partition d started readings
      now with
  | (r, .ok n) => ({ w with registry := r }, some (.registered n))
  | (r, .error _) => ({ w with registry := r }, some .leaving)

def World.enter (c : Config) (w : World) (n : ℕ) (partition : String) :
    Option (World × Option Stage) :=
  match AdmissionState.enter c.limits w.admission.state (admissionKey partition) with
  | none => none
  | some (s, .error e) =>
    some ({ w with admission := { w.admission with state := s } }, some (.refused n e))
  | some (s, .ok ticket) =>
    some ({ w with admission := w.admission.receive s ticket },
      some (.admitted n w.admission.issued))

/-- What one task does to the shared state, and the stage it is in afterwards. -/
def act (c : Config) (w : World) : Stage → Action → Option (World × Option Stage)
  | .reading, .register partition d started readings now =>
    if RequestRegistry.Timely w.registry readings now then
      some (w.register c partition d started readings now)
    else none
  | .control, .lookup partition id readings now =>
    (w.record c (.get ⟨principal, partition, id⟩ readings now)).map fun v => (v, some .control)
  | .registered n, .enter => (w.registry.heap[n]?).bind fun h => w.enter c n h.key.partition
  | .refused n e, .report now _ =>
    (w.record c (.finish n now (some e))).map fun v => (v, some .leaving)
  | .admitted n serial, .dropEnvelope =>
    some ({ w with permits := w.permits + 1 }, some (.working n serial))
  | .working n serial, .start =>
    (w.enterAdmission c (.start serial)).map fun v => (v, some (.working n serial))
  | .working n serial, .update f =>
    (w.record c (.update n f)).map fun v => (v, some (.working n serial))
  | .working n serial, .stop => (w.enterAdmission c (.drop serial)).map fun v =>
    (v, some (.stopped n))
  | .stopped n, .update f => (w.record c (.update n f)).map fun v => (v, some (.stopped n))
  | .stopped n, .report now error => (w.record c (.finish n now error)).map fun v => (v, none)
  | .reading, .leave | .control, .leave | .leaving, .leave =>
    some ({ w with permits := w.permits + 1 }, none)
  | _, _ => none

/-- `try_acquire_owned` on the envelopes, at the start of every handler but two. -/
def World.arrive (w : World) (stage : Stage) : World :=
  if w.permits = 0 then w
  else
    { w with
      permits := w.permits - 1
      tasks := place w.tasks w.arrived (some stage)
      arrived := w.arrived + 1 }

def next (c : Config) (w : World) : Event → Option World
  | .arrive .reading => some (w.arrive .reading)
  | .arrive .control => some (w.arrive .control)
  | .arrive _ => none
  | .step t action =>
    (w.tasks.lookup t).bind fun s => (act c w s action).map fun (v, o) =>
      { v with tasks := place w.tasks t o }
  | .cleanup readings now => w.record c (.cleanup readings now)

def machine (c : Config) (clock : ℕ) : Machine World Event := ⟨.initial c clock, next c⟩

def Stage.envelopes (s : Stage) : ℕ := if s.holdsEnvelope then 1 else 0

def Open (r : RequestRegistry.World) (n : ℕ) : Prop :=
  ∃ h, r.heap[n]? = some h ∧ h.record.finished = none

def Live (a : AdmissionInvariant.World String) (serial : ℕ) : Prop :=
  (a.live.lookup serial).isSome = true

def Matched (w : World) (n serial : ℕ) : Prop :=
  ∃ h g, w.registry.heap[n]? = some h ∧ w.admission.live.lookup serial = some g ∧
    g.ticket.key = admissionKey h.key.partition

structure Invariant (c : Config) (w : World) : Prop where
  permits : w.permits + total Stage.envelopes w.tasks = c.maxEnvelopes
  admission : AdmissionInvariant.Invariant c.limits w.admission
  registry : RequestRegistry.Invariant c.registry w.registry
  records : Exclusive Stage.record w.tasks (Open w.registry)
  tickets : Exclusive Stage.ticket w.tasks (Live w.admission)
  matched : ∀ t s n serial, w.tasks.lookup t = some s → s.record = some n →
    s.ticket = some serial → Matched w n serial
  arrived : ∀ t s, w.tasks.lookup t = some s → t < w.arrived

variable {c : Config} {w v : World}

theorem invariant_initial (clock : ℕ) : Invariant c (.initial c clock) where
  permits := Nat.add_zero _
  admission := (AdmissionInvariant.invariant_start c.limits).1
  registry := .initial clock
  records := .empty (by simp [Open, World.initial, RequestRegistry.World.initial])
  tickets := .empty (by simp [Live, World.initial, AdmissionInvariant.World.initial])
  matched := by simp [World.initial]
  arrived := by simp [World.initial]

def SameKeys (r r' : RequestRegistry.World) : Prop :=
  ∀ (n : ℕ) h, r.heap[n]? = some h → ∃ h', r'.heap[n]? = some h' ∧ h'.key = h.key

def SameTickets (a a' : AdmissionInvariant.World String) : Prop :=
  ∀ n g g', a.live.lookup n = some g → a'.live.lookup n = some g' → g'.ticket.key = g.ticket.key

section Operations

variable {rc : RequestRegistry.Config} {r r' : RequestRegistry.World} {n m : ℕ}

theorem SameKeys.of_heap (h : r'.heap = r.heap) : SameKeys r r' := by
  intro n g hg
  exact ⟨g, by rw [h]; exact hg, rfl⟩

theorem open_of_heap (h : r'.heap = r.heap) : Open r' n ↔ Open r n := by
  simp only [Open, h]

theorem heap_modify {f : RequestRegistry.Held → RequestRegistry.Held}
    (h : r'.heap = r.heap.modify n f) (m : ℕ) :
    r'.heap[m]? = (r.heap[m]?).map fun g => if n = m then f g else g := by
  rw [h, List.getElem?_modify]
  rfl

theorem SameKeys.of_modify {f : RequestRegistry.Held → RequestRegistry.Held}
    (h : r'.heap = r.heap.modify n f) (hkey : ∀ g, (f g).key = g.key) : SameKeys r r' := by
  intro m g hg
  refine ⟨if n = m then f g else g, by rw [heap_modify h, hg]; rfl, ?_⟩
  split
  · exact hkey g
  · rfl

theorem open_of_modify {f : RequestRegistry.Held → RequestRegistry.Held}
    (h : r'.heap = r.heap.modify n f)
    (hf : ∀ g, (f g).record.finished = none ↔ g.record.finished = none) :
    Open r' m ↔ Open r m := by
  simp only [Open, heap_modify h, Option.map_eq_some_iff]
  constructor
  · rintro ⟨g, ⟨g', hg', rfl⟩, hopen⟩
    refine ⟨g', hg', ?_⟩
    split at hopen
    · exact (hf g').mp hopen
    · exact hopen
  · rintro ⟨g, hg, hopen⟩
    refine ⟨_, ⟨g, hg, rfl⟩, ?_⟩
    split
    · exact (hf g).mpr hopen
    · exact hopen

/-- A record is finished once and stays so. -/
theorem open_of_finish {f : RequestRegistry.Held → RequestRegistry.Held}
    (h : r'.heap = r.heap.modify n f) (hf : ∀ g, (f g).record.finished ≠ none) :
    Open r' m ↔ Open r m ∧ m ≠ n := by
  simp only [Open, heap_modify h, Option.map_eq_some_iff]
  constructor
  · rintro ⟨g, ⟨g', hg', rfl⟩, hopen⟩
    have hne : n ≠ m := by
      rintro rfl
      exact hf g' (by simpa using hopen)
    exact ⟨⟨g', hg', by simpa [hne] using hopen⟩, hne.symm⟩
  · rintro ⟨⟨g, hg, hopen⟩, hne⟩
    exact ⟨_, ⟨g, hg, rfl⟩, by simpa [hne.symm] using hopen⟩

theorem update_heap {f : Diagnostics → Diagnostics}
    (h : RequestRegistry.next rc r (.update n f) = some r') :
    SameKeys r r' ∧ ∀ m, Open r' m ↔ Open r m := by
  cases h
  refine ⟨.of_modify rfl fun _ => rfl, fun m => open_of_modify rfl fun g => ?_⟩
  by_cases hg : g.record.finished = none
  · simp [hg, (RequestRecord.update_open hg f).2]
  · simp [RequestRecord.update_finished hg]

theorem finish_heap {now : ℕ} {error : Option TransportError}
    (h : RequestRegistry.next rc r (.finish n now error) = some r') :
    SameKeys r r' ∧ ∀ m, Open r' m ↔ Open r m ∧ m ≠ n := by
  simp only [RequestRegistry.next, Option.ite_none_right_eq_some, Option.some.injEq] at h
  obtain ⟨-, rfl⟩ := h
  refine ⟨.of_modify rfl fun _ => rfl, fun m => open_of_finish rfl fun g => ?_⟩
  exact RequestRecord.finish_isFinished g.record now error

theorem get_heap {key : RequestRegistry.Key} {readings : RequestRegistry.Key → ℕ} {now : ℕ}
    (h : RequestRegistry.next rc r (.get key readings now) = some r') : r'.heap = r.heap := by
  simp only [RequestRegistry.next, Option.ite_none_right_eq_some, Option.some.injEq] at h
  obtain ⟨-, rfl⟩ := h
  simp only [RequestRegistry.get]
  split <;> rfl

theorem cleanup_heap {readings : RequestRegistry.Key → ℕ} {now : ℕ}
    (h : RequestRegistry.next rc r (.cleanup readings now) = some r') : r'.heap = r.heap := by
  simp only [RequestRegistry.next, Option.ite_none_right_eq_some, Option.some.injEq] at h
  obtain ⟨-, rfl⟩ := h
  rfl

end Operations

section Tickets

variable {L : AdmissionState.Limits} {a a' : AdmissionInvariant.World String} {n m : ℕ}

theorem SameTickets.of_live (h : a'.live = a.live) : SameTickets a a' := by
  intro n g g' hg hg'
  rw [h, hg] at hg'
  rw [Option.some.inj hg']

theorem receive_tickets {s : AdmissionState.State String} (ticket : AdmissionState.Ticket String)
    (hfresh : a.live.lookup a.issued = none) :
    SameTickets a (a.receive s ticket) ∧ ¬Live a a.issued ∧
      ∀ m, Live (a.receive s ticket) m ↔ Live a m ∨ m = a.issued := by
  refine ⟨?_, by simp [Live, hfresh], fun m => ?_⟩
  · intro m g g' hg hg'
    have hne : m ≠ a.issued := by
      rintro rfl
      rw [hfresh] at hg
      cases hg
    simp only [AdmissionInvariant.World.receive, AList.lookup_insert_ne hne, hg] at hg'
    rw [Option.some.inj hg']
  · by_cases hm : m = a.issued
    · subst hm
      simp [Live, AdmissionInvariant.World.receive]
    · simp [Live, AdmissionInvariant.World.receive, AList.lookup_insert_ne hm, hm]

theorem start_tickets (h : AdmissionInvariant.next L a (.start n) = some a') :
    SameTickets a a' ∧ ∀ m, Live a' m ↔ Live a m := by
  rcases AdmissionInvariant.next_cases h with ⟨_, he, _⟩ | ⟨_, he, _⟩ | ⟨_, he, _⟩ |
    ⟨_, _, _, _, _, _, _, _, rfl⟩ | ⟨k, g, id, s, he, hg, _, _, _, rfl⟩ | ⟨_, _, _, he, _⟩
  · cases he
  · cases he
  · cases he
  · exact ⟨.of_live rfl, fun _ => Iff.rfl⟩
  · cases he
    constructor
    · intro m f f' hf hf'
      by_cases hm : m = n
      · subst hm
        simp only [AdmissionInvariant.World.activate, AList.lookup_insert, Option.some.injEq] at hf'
        rw [← hf', Option.some.inj (hf.symm.trans hg)]
      · simp only [AdmissionInvariant.World.activate, AList.lookup_insert_ne hm, hf] at hf'
        rw [Option.some.inj hf']
    · intro m
      by_cases hm : m = n
      · subst hm
        simp [Live, AdmissionInvariant.World.activate, hg]
      · simp [Live, AdmissionInvariant.World.activate, AList.lookup_insert_ne hm]
  · cases he

theorem drop_tickets (h : AdmissionInvariant.next L a (.drop n) = some a') :
    SameTickets a a' ∧ ∀ m, Live a' m ↔ Live a m ∧ m ≠ n := by
  rcases AdmissionInvariant.next_cases h with ⟨_, he, _⟩ | ⟨_, he, _⟩ | ⟨_, he, _⟩ |
    ⟨_, _, _, he, _⟩ | ⟨_, _, _, _, he, _⟩ | ⟨k, g, s, he, hg, _, rfl⟩
  · cases he
  · cases he
  · cases he
  · cases he
  · cases he
  · cases he
    constructor
    · intro m f f' hf hf'
      by_cases hm : m = n
      · subst hm
        simp at hf'
      · simp only [AList.lookup_erase_ne hm, hf] at hf'
        rw [Option.some.inj hf']
    · intro m
      by_cases hm : m = n
      · subst hm
        simp [Live]
      · simp [Live, AList.lookup_erase_ne hm, hm]

end Tickets

variable {t : ℕ} {s : Stage} {o : Option Stage}

theorem Matched.frame {n serial : ℕ} (h : Matched w n serial)
    (hkeys : SameKeys w.registry v.registry)
    (htickets : SameTickets w.admission v.admission) (hlive : Live v.admission serial) :
    Matched v n serial := by
  obtain ⟨g, k, hg, hk, hkey⟩ := h
  obtain ⟨g', hg', hgkey⟩ := hkeys n g hg
  obtain ⟨k', hk'⟩ := Option.isSome_iff_exists.mp hlive
  exact ⟨g', k', hg', hk', by rw [htickets serial k k' hk hk', hkey, hgkey]⟩

theorem matched_none (h : o.bind Stage.ticket = none) : ∀ s' n serial, o = some s' →
    s'.record = some n → s'.ticket = some serial → Matched v n serial := by
  rintro s' n serial rfl - hs
  rw [Option.bind_some, hs] at h
  cases h

/-- One task moves on: what it took and gave back has to add up. -/
theorem Invariant.moved (h : Invariant c w) (hs : w.tasks.lookup t = some s)
    (hpermits : v.permits + (o.map Stage.envelopes).getD 0 = w.permits + s.envelopes)
    (hadmission : AdmissionInvariant.Invariant c.limits v.admission)
    (hregistry : RequestRegistry.Invariant c.registry v.registry)
    (hkeys : SameKeys w.registry v.registry) (hsame : SameTickets w.admission v.admission)
    (hrecords : Exclusive Stage.record (place w.tasks t o) (Open v.registry))
    (htickets : Exclusive Stage.ticket (place w.tasks t o) (Live v.admission))
    (hmatched : ∀ s' n serial, o = some s' → s'.record = some n → s'.ticket = some serial →
      Matched v n serial) (harrived : v.arrived = w.arrived) :
    Invariant c { v with tasks := place w.tasks t o } where
  permits := by
    have htotal := total_place Stage.envelopes w.tasks t o
    have hsum := h.permits
    simp only [hs, Option.map_some, Option.getD_some] at htotal
    change v.permits + total Stage.envelopes (place w.tasks t o) = c.maxEnvelopes
    omega
  admission := hadmission
  registry := hregistry
  records := hrecords
  tickets := htickets
  matched := by
    intro u s' n serial hu hn hserial
    by_cases hut : u = t
    · subst hut
      exact hmatched s' n serial (by simpa using hu) hn hserial
    · have hlive := htickets.live u s' serial hu hserial
      rw [lookup_place_ne hut] at hu
      exact (h.matched u s' n serial hu hn hserial).frame hkeys hsame hlive
  arrived := by
    intro u s' hu
    change u < v.arrived
    rw [harrived]
    by_cases hut : u = t
    · subst hut
      exact h.arrived u s hs
    · rw [lookup_place_ne hut] at hu
      exact h.arrived u s' hu

theorem Invariant.keep_records (h : Invariant c w) (hs : w.tasks.lookup t = some s)
    (ho : o.bind Stage.record = s.record) (hopen : ∀ m, Open v.registry m ↔ Open w.registry m) :
    Exclusive Stage.record (place w.tasks t o) (Open v.registry) :=
  (h.records.keep (by simp [hs, ho])).congr hopen

theorem Invariant.keep_tickets (h : Invariant c w) (hs : w.tasks.lookup t = some s)
    (ho : o.bind Stage.ticket = s.ticket) (hlive : ∀ m, Live v.admission m ↔ Live w.admission m) :
    Exclusive Stage.ticket (place w.tasks t o) (Live v.admission) :=
  (h.tickets.keep (by simp [hs, ho])).congr hlive

/-- A task only works on its record. -/
theorem Invariant.registered (h : Invariant c w) (hs : w.tasks.lookup t = some s)
    (hrecord : o.bind Stage.record = s.record) (hticket : o.bind Stage.ticket = s.ticket)
    (hpermits : (o.map Stage.envelopes).getD 0 = s.envelopes) {r : RequestRegistry.World}
    {e : RequestRegistry.Event} (he : RequestRegistry.next c.registry w.registry e = some r)
    (hkeys : SameKeys w.registry r) (hopen : ∀ m, Open r m ↔ Open w.registry m) :
    Invariant c { w with registry := r, tasks := place w.tasks t o } := by
  refine h.moved (v := { w with registry := r }) hs (by rw [hpermits]) h.admission
    (RequestRegistry.next_invariant h.registry he) hkeys (.of_live rfl)
    (h.keep_records (v := { w with registry := r }) hs hrecord hopen)
    (h.keep_tickets hs hticket fun _ => Iff.rfl) ?_ rfl
  intro s' n serial ho hn hserial
  rw [ho] at hrecord hticket
  have hold := h.matched t s n serial hs (hrecord.symm.trans hn) (hticket.symm.trans hserial)
  exact hold.frame hkeys (.of_live rfl) (h.tickets.live t s serial hs (hticket.symm.trans hserial))

theorem not_open_length {r : RequestRegistry.World} : ¬Open r r.heap.length := by
  rintro ⟨g, hg, -⟩
  simp at hg

theorem Invariant.register (h : Invariant c w) (hs : w.tasks.lookup t = some .reading)
    {partition : String} {d : Diagnostics} {started now : ℕ}
    {readings : RequestRegistry.Key → ℕ}
    (htimely : RequestRegistry.Timely w.registry readings now)
    (hr : w.register c partition d started readings now = (v, o)) :
    Invariant c { v with tasks := place w.tasks t o } := by
  have hnext : RequestRegistry.next c.registry w.registry
      (.register principal partition d started readings now) = some (RequestRegistry.register
        c.registry w.registry principal partition d started readings now).1 := by
    simp only [RequestRegistry.next, if_pos htimely]
  unfold World.register at hr
  obtain ⟨n, -, he⟩ | ⟨-, -, he⟩ | ⟨-, -, he⟩ :=
    RequestRegistry.register_cases c.registry w.registry principal partition d started readings now
  · rw [he] at hr hnext
    cases hr
    exact h.registered hs rfl rfl rfl hnext (.of_heap rfl) fun _ => open_of_heap rfl
  · rw [he] at hr hnext
    cases hr
    exact h.registered hs rfl rfl rfl hnext (.of_heap rfl) fun _ => open_of_heap rfl
  · rw [he] at hr hnext
    cases hr
    -- The new record is the last one of the heap, which nobody holds.
    have hget : ∀ (m : ℕ) g, w.registry.heap[m]? = some g →
        (w.registry.heap ++ [⟨⟨principal, partition, d.requestId⟩,
          ⟨started, now, d, none, none⟩, none⟩])[m]? = some g := by
      intro m g hg
      rwa [List.getElem?_append_left (List.getElem?_eq_some_iff.mp hg).1]
    refine h.moved hs rfl h.admission (RequestRegistry.next_invariant h.registry hnext) ?_
      (.of_live rfl) ?_ (h.keep_tickets hs rfl fun _ => Iff.rfl) (matched_none rfl) rfl
    · intro m g hg
      exact ⟨g, hget m g hg, rfl⟩
    · refine h.records.acquire (r := w.registry.heap.length) (by simp [hs, Stage.record])
        (by simp [Stage.record]) not_open_length fun m => ?_
      constructor
      · rintro ⟨g, hg, hopen⟩
        by_cases hm : m < w.registry.heap.length
        · rw [List.getElem?_append_left hm] at hg
          exact .inl ⟨g, hg, hopen⟩
        · have hlt := (List.getElem?_eq_some_iff.mp hg).1
          simp only [List.length_append, List.length_singleton] at hlt
          exact .inr (by omega)
      · rintro (⟨g, hg, hopen⟩ | rfl)
        · exact ⟨g, hget m g hg, hopen⟩
        · exact ⟨_, List.getElem?_concat_length, rfl⟩

theorem noWrap (hwrap : w.admission.enqueued ≤ 2 ^ 64) : AdmissionInvariant.NoWrap w.admission := by
  intro k n g _
  omega

theorem Invariant.enter (h : Invariant c w) (hL : c.limits.Positive)
    (hwrap : w.admission.enqueued ≤ 2 ^ 64) {n : ℕ} {g : RequestRegistry.Held}
    (hs : w.tasks.lookup t = some (.registered n)) (hg : w.registry.heap[n]? = some g)
    (he : w.enter c n g.key.partition = some (v, o)) :
    Invariant c { v with tasks := place w.tasks t o } := by
  unfold World.enter at he
  have hfresh := h.admission.owned.fresh
  cases hr : AdmissionState.enter c.limits w.admission.state (admissionKey g.key.partition) with
  | none => simp [hr] at he
  | some p =>
    obtain ⟨a, result⟩ := p
    have hnext : AdmissionInvariant.next c.limits w.admission
        (.enter (admissionKey g.key.partition)) = some (match result with
          | .error _ => { w.admission with state := a }
          | .ok ticket => w.admission.receive a ticket) := by
      simp only [AdmissionInvariant.next, hr]
      cases result <;> rfl
    have hinvariant := AdmissionInvariant.invariant_step hL h.admission (noWrap hwrap) hnext
    cases result with
    | error e =>
      simp only [hr, Option.some.injEq, Prod.mk.injEq] at he
      obtain ⟨rfl, rfl⟩ := he
      exact h.moved hs rfl hinvariant h.registry (.of_heap rfl) (.of_live rfl)
        (h.keep_records hs rfl fun _ => Iff.rfl) (h.keep_tickets hs rfl fun _ => Iff.rfl)
        (matched_none rfl) rfl
    | ok ticket =>
      simp only [hr, Option.some.injEq, Prod.mk.injEq] at he
      obtain ⟨rfl, rfl⟩ := he
      have hkey : ticket.key = admissionKey g.key.partition := by
        rcases AdmissionState.enter_cases hr with ⟨_, _, ht⟩ | ⟨_, _, _, ht⟩ | ⟨_, _, _, ht⟩
        · cases ht
          rfl
        · cases ht
        · cases ht
          rfl
      obtain ⟨hsame, hnot, hlive⟩ := receive_tickets (s := a) ticket hfresh
      refine h.moved hs rfl hinvariant h.registry (.of_heap rfl) hsame
        (h.keep_records hs rfl fun _ => Iff.rfl) ?_ ?_ rfl
      · exact h.tickets.acquire (by simp [hs, Stage.ticket]) rfl hnot hlive
      · intro s' m serial ho hm hserial
        obtain rfl := Option.some.inj ho
        obtain rfl := Option.some.inj hm
        obtain rfl := Option.some.inj hserial
        exact ⟨g, ⟨w.admission.enqueued, ticket⟩, hg, AList.lookup_insert _, hkey⟩

theorem Invariant.start (h : Invariant c w) (hL : c.limits.Positive)
    (hwrap : w.admission.enqueued ≤ 2 ^ 64) {n serial : ℕ} {a : AdmissionInvariant.World String}
    (hs : w.tasks.lookup t = some (.working n serial))
    (he : AdmissionInvariant.next c.limits w.admission (.start serial) = some a) :
    Invariant c { w with
      admission := a, tasks := place w.tasks t (some (.working n serial)) } := by
  obtain ⟨hsame, hlive⟩ := start_tickets he
  have htickets := h.keep_tickets (v := { w with admission := a })
    (o := some (.working n serial)) hs rfl hlive
  refine h.moved (v := { w with admission := a }) hs rfl
    (AdmissionInvariant.invariant_step hL h.admission (noWrap hwrap) he) h.registry (.of_heap rfl)
    hsame (h.keep_records hs rfl fun _ => Iff.rfl) htickets ?_ rfl
  intro s' m serial' ho hm hserial
  obtain rfl := Option.some.inj ho
  exact (h.matched t _ m serial' hs hm hserial).frame (.of_heap rfl) hsame
    (htickets.live t _ serial' (lookup_place ..) hserial)

/-- Every end of the execution gives the ticket back before the record is finished. -/
theorem Invariant.stop (h : Invariant c w) (hL : c.limits.Positive)
    (hwrap : w.admission.enqueued ≤ 2 ^ 64) {n serial : ℕ} {a : AdmissionInvariant.World String}
    (hs : w.tasks.lookup t = some (.working n serial))
    (he : AdmissionInvariant.next c.limits w.admission (.drop serial) = some a) :
    Invariant c { w with admission := a, tasks := place w.tasks t (some (.stopped n)) } := by
  obtain ⟨hsame, hlive⟩ := drop_tickets he
  exact h.moved (v := { w with admission := a }) hs rfl
    (AdmissionInvariant.invariant_step hL h.admission (noWrap hwrap) he) h.registry (.of_heap rfl)
    hsame (h.keep_records hs rfl fun _ => Iff.rfl)
    (h.tickets.release (by simp [hs, Stage.ticket]) rfl hlive) (matched_none rfl) rfl

/-- The end of a request: its record is finished and no task holds it any more. -/
theorem Invariant.report (h : Invariant c w) {n now : ℕ} {error : Option TransportError}
    {r : RequestRegistry.World} (hs : w.tasks.lookup t = some s) (hrecord : s.record = some n)
    (hticket : s.ticket = none) (ho : o.bind Stage.record = none)
    (hot : o.bind Stage.ticket = none) (hpermits : (o.map Stage.envelopes).getD 0 = s.envelopes)
    (he : RequestRegistry.next c.registry w.registry (.finish n now error) = some r) :
    Invariant c { w with registry := r, tasks := place w.tasks t o } := by
  obtain ⟨hkeys, hopen⟩ := finish_heap he
  refine h.moved (v := { w with registry := r }) hs (by rw [hpermits]) h.admission
    (RequestRegistry.next_invariant h.registry he) hkeys (.of_live rfl)
    (h.records.release (by simp [hs, hrecord]) ho hopen)
    (h.keep_tickets (v := { w with registry := r }) hs (by rw [hot, hticket]) fun _ => Iff.rfl) ?_
    rfl
  intro s' m serial hso hm _
  rw [hso, Option.bind_some, hm] at ho
  cases ho

/-- An envelope given back by a task that may hold a record and a ticket. -/
theorem Invariant.release (h : Invariant c w) (hs : w.tasks.lookup t = some s)
    (hheld : s.envelopes = 1) (ho : (o.map Stage.envelopes).getD 0 = 0)
    (hrecord : o.bind Stage.record = s.record) (hticket : o.bind Stage.ticket = s.ticket) :
    Invariant c { w with permits := w.permits + 1, tasks := place w.tasks t o } := by
  refine h.moved (v := { w with permits := w.permits + 1 }) hs ?_ h.admission h.registry
    (.of_heap rfl) (.of_live rfl) (h.keep_records hs hrecord fun _ => Iff.rfl)
    (h.keep_tickets hs hticket fun _ => Iff.rfl) ?_ rfl
  · rw [hheld, ho]
  · intro s' n serial hso hn hserial
    rw [hso] at hrecord hticket
    exact h.matched t s n serial hs (hrecord.symm.trans hn) (hticket.symm.trans hserial)

theorem act_invariant {a : Action} (h : Invariant c w) (hL : c.limits.Positive)
    (hwrap : w.admission.enqueued ≤ 2 ^ 64) (hs : w.tasks.lookup t = some s)
    (ha : act c w s a = some (v, o)) : Invariant c { v with tasks := place w.tasks t o } := by
  unfold act at ha
  split at ha
  case h_1 =>
    simp only [Option.ite_none_right_eq_some, Option.some.injEq] at ha
    exact h.register hs ha.1 ha.2
  case h_2 =>
    simp only [World.record, Option.map_map, Option.map_eq_some_iff] at ha
    obtain ⟨r, hr, hv⟩ := ha
    cases hv
    have hheap := get_heap hr
    exact h.registered hs rfl rfl rfl hr (.of_heap hheap) fun _ => open_of_heap hheap
  case h_3 =>
    obtain ⟨g, hg, he⟩ := Option.bind_eq_some_iff.mp ha
    exact h.enter hL hwrap hs hg he
  case h_4 =>
    simp only [World.record, Option.map_map, Option.map_eq_some_iff] at ha
    obtain ⟨r, hr, hv⟩ := ha
    cases hv
    exact h.report hs rfl rfl rfl rfl rfl hr
  case h_5 =>
    cases ha
    exact h.release hs rfl rfl rfl rfl
  case h_6 =>
    simp only [World.enterAdmission, Option.map_map, Option.map_eq_some_iff] at ha
    obtain ⟨r, hr, hv⟩ := ha
    cases hv
    exact h.start hL hwrap hs hr
  case h_7 =>
    simp only [World.record, Option.map_map, Option.map_eq_some_iff] at ha
    obtain ⟨r, hr, hv⟩ := ha
    cases hv
    obtain ⟨hkeys, hopen⟩ := update_heap hr
    exact h.registered hs rfl rfl rfl hr hkeys hopen
  case h_8 =>
    simp only [World.enterAdmission, Option.map_map, Option.map_eq_some_iff] at ha
    obtain ⟨r, hr, hv⟩ := ha
    cases hv
    exact h.stop hL hwrap hs hr
  case h_9 =>
    simp only [World.record, Option.map_map, Option.map_eq_some_iff] at ha
    obtain ⟨r, hr, hv⟩ := ha
    cases hv
    obtain ⟨hkeys, hopen⟩ := update_heap hr
    exact h.registered hs rfl rfl rfl hr hkeys hopen
  case h_10 =>
    simp only [World.record, Option.map_map, Option.map_eq_some_iff] at ha
    obtain ⟨r, hr, hv⟩ := ha
    cases hv
    exact h.report hs rfl rfl rfl rfl rfl hr
  case h_11 | h_12 | h_13 =>
    cases ha
    exact h.release hs rfl rfl rfl rfl
  case h_14 => cases ha

theorem arrive_invariant (h : Invariant c w) (hs : s.envelopes = 1) (hrecord : s.record = none)
    (hticket : s.ticket = none) : Invariant c (w.arrive s) := by
  unfold World.arrive
  split
  · exact h
  · next hpos =>
    have hfresh : w.tasks.lookup w.arrived = none := by
      rw [← Option.not_isSome_iff_eq_none, Option.isSome_iff_exists]
      rintro ⟨s', hs'⟩
      exact (h.arrived _ _ hs').ne rfl
    have htotal := total_place Stage.envelopes w.tasks w.arrived (some s)
    simp only [hfresh, Option.map_none, Option.getD_none, Option.map_some, Option.getD_some,
      hs] at htotal
    have hcases : ∀ {u s'}, (place w.tasks w.arrived (some s)).lookup u = some s' →
        u = w.arrived ∧ s' = s ∨ w.tasks.lookup u = some s' := by
      intro u s' hu
      by_cases hut : u = w.arrived
      · subst hut
        exact .inl ⟨rfl, by simpa [eq_comm] using hu⟩
      · exact .inr (by rwa [lookup_place_ne hut] at hu)
    constructor
    · have hsum := h.permits
      change w.permits - 1 + total Stage.envelopes (place w.tasks w.arrived (some s)) = _
      omega
    · exact h.admission
    · exact h.registry
    · exact h.records.keep (t := w.arrived) (o := some s) (by rw [hfresh]; exact hrecord)
    · exact h.tickets.keep (t := w.arrived) (o := some s) (by rw [hfresh]; exact hticket)
    · intro u s' n serial hu hn hserial
      rcases hcases hu with ⟨-, rfl⟩ | hu
      · rw [hrecord] at hn
        cases hn
      · exact h.matched u s' n serial hu hn hserial
    · intro u s' hu
      change u < w.arrived + 1
      rcases hcases hu with ⟨rfl, -⟩ | hu
      · exact Nat.lt_succ_self _
      · exact Nat.lt_succ_of_lt (h.arrived u s' hu)

theorem cleanup_invariant {readings : RequestRegistry.Key → ℕ} {now : ℕ} (h : Invariant c w)
    (hc : w.record c (.cleanup readings now) = some v) : Invariant c v := by
  obtain ⟨r, hr, rfl⟩ := Option.map_eq_some_iff.mp hc
  have hheap := cleanup_heap hr
  exact
    { permits := h.permits
      admission := h.admission
      registry := RequestRegistry.next_invariant h.registry hr
      records := h.records.congr fun _ => open_of_heap hheap
      tickets := h.tickets
      matched := by
        intro t s n serial hs hn hserial
        exact (h.matched t s n serial hs hn hserial).frame (.of_heap hheap) (.of_live rfl)
          (h.tickets.live t s serial hs hserial)
      arrived := h.arrived }

theorem next_invariant {e : Event} (h : Invariant c w) (hL : c.limits.Positive)
    (hwrap : w.admission.enqueued ≤ 2 ^ 64) (hn : next c w e = some v) : Invariant c v := by
  cases e with
  | arrive stage =>
    cases stage <;> simp only [next, Option.some.injEq, reduceCtorEq] at hn
    · exact hn ▸ arrive_invariant h rfl rfl rfl
    · exact hn ▸ arrive_invariant h rfl rfl rfl
  | step t action =>
    simp only [next, Option.bind_eq_some_iff, Option.map_eq_some_iff] at hn
    obtain ⟨s, hs, ⟨v', o⟩, ha, rfl⟩ := hn
    exact act_invariant h hL hwrap hs ha
  | cleanup readings now => exact cleanup_invariant h hn

theorem admission_enqueued {L : AdmissionState.Limits} {a a' : AdmissionInvariant.World String}
    {e : AdmissionInvariant.Event String} (h : AdmissionInvariant.next L a e = some a') :
    a.enqueued ≤ a'.enqueued := by
  rcases AdmissionInvariant.next_cases h with ⟨_, _, _, rfl⟩ | ⟨_, _, _, _, rfl⟩ |
    ⟨_, _, _, _, rfl⟩ | ⟨_, _, _, _, _, _, _, _, rfl⟩ | ⟨_, _, _, _, _, _, _, _, _, rfl⟩ |
    ⟨_, _, _, _, _, _, rfl⟩
  all_goals simp [AdmissionInvariant.World.receive, AdmissionInvariant.World.activate]

theorem enter_enqueued {n : ℕ} {partition : String} (h : w.enter c n partition = some (v, o)) :
    w.admission.enqueued ≤ v.admission.enqueued ∧
      v.admission.enqueued ≤ w.admission.enqueued + 1 := by
  unfold World.enter at h
  split at h
  · cases h
  · cases h
    exact ⟨le_rfl, Nat.le_succ _⟩
  · cases h
    simp only [AdmissionInvariant.World.receive]
    split <;> omega

theorem act_enqueued {a : Action} (h : act c w s a = some (v, o)) :
    w.admission.enqueued ≤ v.admission.enqueued := by
  unfold act at h
  split at h
  case h_1 =>
    simp only [Option.ite_none_right_eq_some, Option.some.injEq, World.register] at h
    split at h <;> cases h.2 <;> exact le_rfl
  case h_3 =>
    obtain ⟨g, hg, he⟩ := Option.bind_eq_some_iff.mp h
    exact (enter_enqueued he).1
  case h_6 | h_8 =>
    simp only [World.enterAdmission, Option.map_map, Option.map_eq_some_iff] at h
    obtain ⟨a', ha, hv⟩ := h
    cases hv
    exact admission_enqueued ha
  case h_2 | h_4 | h_7 | h_9 | h_10 =>
    simp only [World.record, Option.map_map, Option.map_eq_some_iff] at h
    obtain ⟨r, hr, hv⟩ := h
    cases hv
    exact le_rfl
  case h_5 | h_11 | h_12 | h_13 =>
    cases h
    exact le_rfl
  case h_14 => cases h

theorem next_enqueued {e : Event} (h : next c w e = some v) :
    w.admission.enqueued ≤ v.admission.enqueued := by
  cases e with
  | arrive stage =>
    have harrive : ∀ s, (w.arrive s).admission = w.admission := by
      intro s
      unfold World.arrive
      split <;> rfl
    cases stage <;> simp only [next, Option.some.injEq, reduceCtorEq] at h
    · rw [← h, harrive]
    · rw [← h, harrive]
  | step t action =>
    simp only [next, Option.bind_eq_some_iff, Option.map_eq_some_iff] at h
    obtain ⟨s, hs, ⟨v', o⟩, ha, rfl⟩ := h
    have hle := act_enqueued ha
    exact hle
  | cleanup readings now =>
    obtain ⟨r, hr, rfl⟩ := Option.map_eq_some_iff.mp h
    exact le_rfl

/-- The run lemma, for fewer than `2 ^ 64` queued tickets. -/
theorem invariant_run (hL : c.limits.Positive) {clock : ℕ} {es : List Event}
    (hwrap : v.admission.enqueued ≤ 2 ^ 64)
    (hrun : (machine c clock).run (machine c clock).initial es = some v) : Invariant c v := by
  have hstep : ∀ u e u', (u.admission.enqueued ≤ 2 ^ 64 → Invariant c u) →
      (machine c clock).next u e = some u' → u'.admission.enqueued ≤ 2 ^ 64 → Invariant c u' := by
    intro u e u' hu hnext hle
    have hlow := (next_enqueued hnext).trans hle
    exact next_invariant (hu hlow) hL hlow hnext
  exact Machine.run_preserves hstep (fun _ => invariant_initial clock) hrun hwrap

end ServiceLoad
