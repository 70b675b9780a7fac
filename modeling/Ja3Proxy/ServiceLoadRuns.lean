import Ja3Proxy.ServiceLoad

/-! What holds in every state of the running service: envelopes, tickets and records add up,
a full registry is never the fault of requests that admission would still have taken, and
every request can be ended by its own steps, which give everything back. -/
namespace ServiceLoad

open ExclusiveOwners FiniteMaps ServiceConfig TransitionRuns TransportErrors

def holdsTicket (s : Stage) : ℕ := if s.ticket.isSome then 1 else 0
def holdsRecord (s : Stage) : ℕ := if s.record.isSome then 1 else 0

/-- A record that is not yet, or no longer, backed by a ticket. -/
def inTransit (s : Stage) : ℕ := if s.record.isSome && s.ticket.isNone then 1 else 0

def unfinished (r : RequestRegistry.World) : List ℕ :=
  (r.records.entries.map fun e => e.2).filter fun n =>
    (r.heap[n]?).any fun h => h.record.finished.isNone

variable {c : Config} {w v : World} {t : ℕ} {s : Stage} {o : Option Stage}

theorem mem_unfinished {rc : RequestRegistry.Config} {r : RequestRegistry.World}
    (h : RequestRegistry.Invariant rc r) {n : ℕ} : n ∈ unfinished r ↔ Open r n := by
  simp only [unfinished, List.mem_filter, List.mem_map, Option.any_eq_true,
    Option.isNone_iff_eq_none]
  constructor
  · rintro ⟨-, g, hg, hopen⟩
    exact ⟨g, hg, hopen⟩
  · rintro ⟨g, hg, hopen⟩
    have hlisted := h.unfinished hg hopen
    exact ⟨⟨⟨g.key, n⟩, AList.mem_lookup_iff.mp hlisted, rfl⟩, g, hg, hopen⟩

theorem Invariant.unfinished_count (h : Invariant c w) :
    total holdsRecord w.tasks = (unfinished w.registry).length :=
  h.records.count (h.registry.entries_nodup.filter _) fun _ => mem_unfinished h.registry

theorem Invariant.ticket_count (h : Invariant c w) :
    total holdsTicket w.tasks = w.admission.state.active + w.admission.state.queued := by
  have hlive : ∀ n, n ∈ w.admission.live.keys ↔ Live w.admission n := by
    intro n
    exact AList.mem_keys.symm.trans AList.lookup_isSome.symm
  have hcount := h.tickets.count w.admission.live.nodupKeys hlive
  have hsplit : ∀ m : AList (fun _ : ℕ => AdmissionInvariant.Held String),
      total AdmissionInvariant.activeOne m + total AdmissionInvariant.queuedOne m =
        m.entries.length := by
    intro m
    rw [total, total]
    induction m.entries with
    | nil => rfl
    | cons e l ih =>
      have hone : AdmissionInvariant.activeOne e.2 + AdmissionInvariant.queuedOne e.2 = 1 := by
        unfold AdmissionInvariant.activeOne AdmissionInvariant.queuedOne
        split <;> rfl
      simp only [List.foldr_cons, List.length_cons]
      omega
  have hlength : w.admission.live.keys.length = w.admission.live.entries.length :=
    List.length_map ..
  rw [h.admission.owned.active_count, h.admission.owned.queued_count, hsplit, ← hlength]
  exact hcount

theorem record_split (m : AList (fun _ : ℕ => Stage)) :
    total holdsRecord m = total holdsTicket m + total inTransit m := by
  rw [total, total, total]
  induction m.entries with
  | nil => rfl
  | cons e l ih =>
    have hone : holdsRecord e.2 = holdsTicket e.2 + inTransit e.2 := by
      cases e.2 <;> rfl
    simp only [List.foldr_cons]
    omega

def Runs (w : World) (partition : String) (t : ℕ) : Prop :=
  ∃ s n serial h g, w.tasks.lookup t = some s ∧ s.record = some n ∧ s.ticket = some serial ∧
    w.registry.heap[n]? = some h ∧ h.key.partition = partition ∧
    w.admission.live.lookup serial = some g ∧ g.ticket.active = true

def RefusedByRegistry (c : Config) (w : World) : Prop :=
  ∃ partition d started readings now, RequestRegistry.Timely w.registry readings now ∧
    (RequestRegistry.register c.registry w.registry ContextHandlers.principal partition d started
      readings now).2 = .error (.fromCode .busy)

def Remembered (c : Config) (w : World) (n : ℕ) : Prop :=
  ∃ h, w.registry.heap[n]? = some h ∧ h.record.finished ≠ none ∧
    RequestRegistry.recent c.registry.ttl h.record w.registry.clock = true

structure Idle (c : Config) (w : World) : Prop where
  permits : w.permits = c.maxEnvelopes
  active : w.admission.state.active = 0
  queued : w.admission.state.queued = 0
  partitions : ∀ key, w.admission.state.partitions.lookup key = none
  order : w.admission.state.order = []
  records : ∀ (n : ℕ) h, w.registry.heap[n]? = some h → h.record.finished ≠ none

structure Promises (c : Config) (w : World) : Prop where
  envelopes : w.permits + total Stage.envelopes w.tasks = c.maxEnvelopes
  tickets : total holdsTicket w.tasks = w.admission.state.active + w.admission.state.queued
  active_le : w.admission.state.active ≤ c.maxConcurrent
  queued_le : w.admission.state.queued ≤ c.maxQueued
  records : (unfinished w.registry).length = total holdsTicket w.tasks + total inTransit w.tasks
  capacity : w.registry.records.entries.length ≤ c.registryCapacity
  /-- No partition executes more than its share. -/
  share : ∀ partition (ts : List ℕ), ts.Nodup → (∀ t ∈ ts, Runs w partition t) →
    ts.length ≤ c.maxConcurrentPerPartition
  /-- No two tasks work on requests with the same identifier of one partition. -/
  exclusive : ∀ (t u : ℕ) s s' (n m : ℕ) g g', w.tasks.lookup t = some s →
    w.tasks.lookup u = some s' → s.record = some n → s'.record = some m →
    w.registry.heap[n]? = some g → w.registry.heap[m]? = some g' → g.key = g'.key → t = u
  /-- A registry that is full remembers finished requests or requests in transit, unless
  admission is full as well. -/
  refused : RefusedByRegistry c w → ∃ remembered : List ℕ, remembered.Nodup ∧
    (∀ n ∈ remembered, Remembered c w n) ∧
    c.registryCapacity ≤ remembered.length + total inTransit w.tasks +
      (w.admission.state.active + w.admission.state.queued)
  justified : RefusedByRegistry c w → total inTransit w.tasks = 0 → (∀ n, ¬Remembered c w n) →
    ∀ key, AdmissionState.enter c.limits w.admission.state key =
      some (w.admission.state, .error (.fromCode .busy))
  idle : w.tasks = ∅ → Idle c w

theorem Invariant.share (h : Invariant c w) {partition : String} {ts : List ℕ} (hts : ts.Nodup)
    (hruns : ∀ t ∈ ts, Runs w partition t) : ts.length ≤ c.maxConcurrentPerPartition := by
  have hbound : ts.length ≤
      total (AdmissionInvariant.activeOf (admissionKey partition)) w.admission.live :=
    h.tickets.bounded _ hts fun t ht => by
      obtain ⟨s, n, serial, g, k, hs, hn, hserial, hg, rfl, hk, hactive⟩ := hruns t ht
      obtain ⟨g', k', hg', hk', hkey⟩ := h.matched t s n serial hs hn hserial
      obtain rfl := Option.some.inj (hg.symm.trans hg')
      obtain rfl := Option.some.inj (hk.symm.trans hk')
      exact ⟨s, serial, k, hs, hserial, hk, by simp [AdmissionInvariant.activeOf, hactive, hkey]⟩
  rw [← h.admission.owned.partition_active] at hbound
  exact hbound.trans (h.admission.balanced.partition_active_le _)

theorem Invariant.exclusive (h : Invariant c w) {u n m : ℕ} {s' : Stage}
    {g g' : RequestRegistry.Held} (hs : w.tasks.lookup t = some s)
    (hs' : w.tasks.lookup u = some s') (hn : s.record = some n) (hm : s'.record = some m)
    (hg : w.registry.heap[n]? = some g) (hg' : w.registry.heap[m]? = some g')
    (hkey : g.key = g'.key) : t = u := by
  obtain ⟨k, hk, hopen⟩ := h.records.live t s n hs hn
  obtain ⟨k', hk', hopen'⟩ := h.records.live u s' m hs' hm
  obtain rfl := Option.some.inj (hg.symm.trans hk)
  obtain rfl := Option.some.inj (hg'.symm.trans hk')
  have hnm := h.registry.promises.exclusive n m g g' hg hg' hkey hopen hopen'
  exact h.records.unique t u s s' n hs hs' hn (hnm ▸ hm)

theorem Invariant.refused (h : Invariant c w) (hrefused : RefusedByRegistry c w) :
    ∃ remembered : List ℕ, remembered.Nodup ∧ (∀ n ∈ remembered, Remembered c w n) ∧
      c.registryCapacity ≤ remembered.length + total inTransit w.tasks +
        (w.admission.state.active + w.admission.state.queued) := by
  obtain ⟨partition, d, started, readings, now, htimely, hbusy⟩ := hrefused
  obtain ⟨ns, hnodup, hlength, hns⟩ :=
    h.registry.promises.busy _ partition d started readings now htimely hbusy
  -- The crowd consists of unfinished records and of finished ones that are recent.
  let isOpen : ℕ → Bool := fun n => decide (n ∈ unfinished w.registry)
  have hopen : (ns.filter isOpen).length ≤ (unfinished w.registry).length := by
    refine (hnodup.filter isOpen).length_le_of_subset fun n hn => ?_
    simpa [isOpen] using (List.mem_filter.mp hn).2
  refine ⟨ns.filter fun n => !isOpen n, hnodup.filter _, ?_, ?_⟩
  · intro n hn
    obtain ⟨hmem, hnot⟩ := List.mem_filter.mp hn
    obtain ⟨g, hg, hrecent⟩ := hns n hmem
    refine ⟨g, hg, fun hfinished => ?_, hrecent⟩
    have hin : n ∈ unfinished w.registry := (mem_unfinished h.registry).mpr ⟨g, hg, hfinished⟩
    simp [isOpen, hin] at hnot
  · have hcount := h.unfinished_count
    have hticket := h.ticket_count
    have hsplit := record_split w.tasks
    have hpartition := List.length_eq_length_filter_add isOpen (l := ns)
    change ns.length = c.registryCapacity at hlength
    omega

/-- Nobody can enter while every place is taken. -/
theorem enter_full (hactive : c.maxConcurrent ≤ w.admission.state.active)
    (hqueued : c.maxQueued ≤ w.admission.state.queued) (key : String) :
    AdmissionState.enter c.limits w.admission.state key =
      some (w.admission.state, .error (.fromCode .busy)) := by
  have hstart : AdmissionState.canStart c.limits w.admission.state key = some false := by
    have hnot : ¬w.admission.state.active < c.limits.activeLimit := Nat.not_lt.mpr hactive
    simp [AdmissionState.canStart, hnot]
  have hfull : w.admission.state.full c.limits key = true := by
    have hle : c.limits.queueLimit ≤ w.admission.state.queued := hqueued
    simp [AdmissionState.State.full, hle]
  simp [AdmissionState.enter, hstart, hfull]

theorem Invariant.idle (h : Invariant c w) (hempty : w.tasks = ∅) : Idle c w := by
  have hnone : ∀ n, ¬Live w.admission n := by
    intro n hn
    obtain ⟨t, s, ht, -⟩ := h.tickets.held n hn
    simp [hempty] at ht
  have htickets := h.ticket_count
  rw [hempty, total_empty] at htickets
  have hpartitions : ∀ key, w.admission.state.partitions.lookup key = none := by
    intro key
    rw [← Option.not_isSome_iff_eq_none, Option.isSome_iff_exists, h.admission.balanced.present key]
    have hactive := h.admission.balanced.active_sum
    have hqueued := h.admission.balanced.queued_sum
    intro hpresent
    obtain ⟨p, hp⟩ := (h.admission.balanced.present key).mpr hpresent
    rw [AdmissionState.entry_of_lookup hp] at hpresent
    have hle := total_le (f := AdmissionState.Partition.active) hp
    have hlen := total_le (f := fun q : AdmissionState.Partition => q.waiting.length) hp
    rcases hpresent with hpos | hwaiting
    · omega
    · have := List.length_pos_of_ne_nil hwaiting
      omega
  constructor
  · have hpermits := h.permits
    rwa [hempty, total_empty, Nat.add_zero] at hpermits
  · omega
  · omega
  · exact hpartitions
  · rw [List.eq_nil_iff_forall_not_mem]
    intro key hkey
    have hwaiting := (h.admission.balanced.shape.mem_order key).mp hkey
    simp [AdmissionState.entry, hpartitions key] at hwaiting
  · intro n g hg hopen
    obtain ⟨t, s, ht, -⟩ := h.records.held n ⟨g, hg, hopen⟩
    simp [hempty] at ht

theorem Invariant.promises (h : Invariant c w) (hc : c.Valid) : Promises c w where
  envelopes := h.permits
  tickets := h.ticket_count
  active_le := h.admission.balanced.active_le
  queued_le := h.admission.balanced.queued_le
  records := by rw [← h.unfinished_count, record_split]
  capacity := h.registry.capacity
  share := fun _ _ hts hruns => h.share hts hruns
  exclusive := fun _ _ _ _ _ _ _ _ hs hs' hn hm hg hg' hkey => h.exclusive hs hs' hn hm hg hg' hkey
  refused := h.refused
  justified := by
    intro hrefused htransit hforgotten key
    obtain ⟨remembered, -, hremembered, hle⟩ := h.refused hrefused
    have hnil : remembered = [] :=
      List.eq_nil_iff_forall_not_mem.mpr fun n hn => hforgotten n (hremembered n hn)
    have hactive : w.admission.state.active ≤ c.maxConcurrent := h.admission.balanced.active_le
    have hqueued : w.admission.state.queued ≤ c.maxQueued := h.admission.balanced.queued_le
    have hcapacity := hc.capacity
    rw [hnil, htransit, List.length_nil] at hle
    exact enter_full (by omega) (by omega) key
  idle := h.idle

/-- In every state of every run of a service that was configured from its environment. -/
theorem service_promises {s : Surroundings} {c : Config} (hconfig : fromEnv s = .ok c)
    {clock : ℕ} {es : List Event} {w : World} (hwrap : w.admission.enqueued ≤ 2 ^ 64)
    (hrun : (machine c clock).run (machine c clock).initial es = some w) : Promises c w := by
  have hvalid := fromEnv_valid hconfig
  exact (invariant_run hvalid.limits_positive hwrap hrun).promises hvalid

def crowded : List Event :=
  [.arrive .reading, .arrive .reading, .arrive .control,
    .step 0 (.register "a" (RequestRegistry.sampleDiagnostics "first") 0 (fun _ => 0) 0),
    .step 0 .enter, .step 0 .dropEnvelope,
    .step 1 (.register "a" (RequestRegistry.sampleDiagnostics "second") 0 (fun _ => 0) 0),
    .step 1 .enter, .step 1 .dropEnvelope]

theorem crowded_run : ∃ w, (machine sampleConfig 0).run (machine sampleConfig 0).initial crowded =
    some w ∧ w.admission.enqueued = 1 ∧ w.tasks.lookup 1 = some (.working 1 1) := by
  have hrun : ((machine sampleConfig 0).run (machine sampleConfig 0).initial crowded).any
      (fun w => w.admission.enqueued = 1 ∧ w.tasks.lookup 1 = some (.working 1 1)) := by
    decide +kernel
  obtain ⟨w, hw, hfacts⟩ := (Option.any_eq_true _ _).mp hrun
  exact ⟨w, hw, of_decide_eq_true hfacts⟩

theorem service_promises_crowded :
    ∃ w, (machine sampleConfig 0).run (machine sampleConfig 0).initial crowded = some w ∧
      w.tasks.lookup 1 = some (.working 1 1) ∧ Promises sampleConfig w := by
  obtain ⟨w, hw, henqueued, htask⟩ := crowded_run
  exact ⟨w, hw, htask, service_promises
    (fromEnv_printed (prints_printed _) sampleConfig_valid) (by omega) hw⟩

def Stage.rank : Stage → ℕ
  | .reading | .control | .leaving | .stopped _ => 1
  | .refused _ _ | .working _ _ => 2
  | .admitted _ _ => 3
  | .registered _ => 4

/-- A task can always move towards its end, whatever the others do. -/
theorem Invariant.advance (h : Invariant c w) (hs : w.tasks.lookup t = some s) :
    ∃ a v o, act c w s a = some (v, o) ∧ (o.map Stage.rank).getD 0 < s.rank ∧
      v.admission.enqueued ≤ w.admission.enqueued + 1 := by
  have hfinish : ∀ n error, ∃ r, RequestRegistry.next c.registry w.registry
      (.finish n w.registry.clock error) = some r := by
    intro n error
    exact ⟨_, if_pos le_rfl⟩
  cases s with
  | reading => exact ⟨.leave, _, none, rfl, Nat.zero_lt_one, Nat.le_succ _⟩
  | control => exact ⟨.leave, _, none, rfl, Nat.zero_lt_one, Nat.le_succ _⟩
  | leaving => exact ⟨.leave, _, none, rfl, Nat.zero_lt_one, Nat.le_succ _⟩
  | registered n =>
    obtain ⟨g, hg, -⟩ := h.records.live t _ n hs rfl
    obtain ⟨⟨a, result⟩, hr⟩ := h.admission.panic_free.enter (admissionKey g.key.partition)
    have hact : act c w (.registered n) .enter = w.enter c n g.key.partition := by
      simp only [act, hg, Option.bind_some]
    cases result with
    | error e =>
      have he : w.enter c n g.key.partition =
          some ({ w with admission := { w.admission with state := a } }, some (.refused n e)) := by
        simp only [World.enter, hr]
      exact ⟨.enter, _, _, hact.trans he, by simp [Stage.rank], (enter_enqueued he).2⟩
    | ok ticket =>
      have he : w.enter c n g.key.partition =
          some ({ w with admission := w.admission.receive a ticket },
            some (.admitted n w.admission.issued)) := by
        simp only [World.enter, hr]
      exact ⟨.enter, _, _, hact.trans he, by simp [Stage.rank], (enter_enqueued he).2⟩
  | refused n e =>
    obtain ⟨r, hr⟩ := hfinish n (some e)
    exact ⟨.report w.registry.clock none, { w with registry := r }, some .leaving,
      by simp [act, World.record, hr], by simp [Stage.rank], Nat.le_succ _⟩
  | admitted n serial =>
    exact ⟨.dropEnvelope, _, _, rfl, by simp [Stage.rank], Nat.le_succ _⟩
  | working n serial =>
    obtain ⟨g, hg⟩ := Option.isSome_iff_exists.mp (h.tickets.live t _ serial hs rfl)
    obtain ⟨a, ha⟩ := h.admission.panic_free.drop serial g hg
    have hnext : AdmissionInvariant.next c.limits w.admission (.drop serial) =
        some { w.admission with state := a, live := w.admission.live.erase serial } := by
      simp [AdmissionInvariant.next, hg, ha]
    exact ⟨.stop, { w with
        admission := { w.admission with state := a, live := w.admission.live.erase serial } },
      some (.stopped n), by simp only [act, World.enterAdmission, hnext, Option.map_some],
      by simp [Stage.rank], Nat.le_succ _⟩
  | stopped n =>
    obtain ⟨r, hr⟩ := hfinish n none
    exact ⟨.report w.registry.clock none, { w with registry := r }, none,
      by simp [act, World.record, hr], by simp [Stage.rank], Nat.le_succ _⟩

/-- Induction on the steps that are left. -/
theorem Invariant.drain {left : ℕ} (h : Invariant c w) (hL : c.limits.Positive)
    (hleft : total Stage.rank w.tasks = left)
    (hwrap : w.admission.enqueued + left ≤ 2 ^ 64) (clock : ℕ) :
    ∃ es v, (∀ e ∈ es, ∃ t a, e = Event.step t a) ∧ (machine c clock).run w es = some v ∧
      v.tasks = ∅ ∧ Invariant c v := by
  induction left using Nat.strong_induction_on generalizing w with
  | _ left ih =>
    by_cases hempty : w.tasks = ∅
    · exact ⟨[], w, by simp, rfl, hempty, h⟩
    · obtain ⟨t, s, hs⟩ : ∃ t s, w.tasks.lookup t = some s := by
        by_contra hnone
        push Not at hnone
        refine hempty (AList.ext (List.eq_nil_iff_forall_not_mem.mpr fun e he => ?_))
        exact hnone e.1 e.2 (AList.mem_lookup_iff.mpr he)
      obtain ⟨a, v, o, ha, hrank, henqueued⟩ := h.advance hs
      have hnext : next c w (.step t a) = some { v with tasks := place w.tasks t o } := by
        simp only [next, hs, Option.bind_some, ha, Option.map_some]
      have htotal := total_place Stage.rank w.tasks t o
      have hle := total_le (f := Stage.rank) hs
      simp only [hs, Option.map_some, Option.getD_some] at htotal
      have hless : total Stage.rank (place w.tasks t o) < left := by omega
      obtain ⟨es, u, hes, hrun, hend, hu⟩ := ih _ hless (act_invariant h hL (by omega) hs ha) rfl
        (by change v.admission.enqueued + _ ≤ _; omega)
      refine ⟨.step t a :: es, u, ?_, Machine.run_cons_iff _ |>.mpr ⟨_, hnext, hrun⟩, hend, hu⟩
      intro e he
      rcases List.mem_cons.mp he with rfl | he
      · exact ⟨t, a, rfl⟩
      · exact hes e he

theorem rank_le (m : AList (fun _ : ℕ => Stage)) :
    total Stage.rank m ≤ total Stage.envelopes m + 4 * total holdsRecord m := by
  rw [total, total, total]
  induction m.entries with
  | nil => exact Nat.le_refl _
  | cons e l ih =>
    have hone : Stage.rank e.2 ≤ Stage.envelopes e.2 + 4 * holdsRecord e.2 := by
      cases e.2 <;> simp [Stage.rank, Stage.envelopes, Stage.holdsEnvelope, holdsRecord,
        Stage.record]
    simp only [List.foldr_cons]
    omega

/-- From every reachable state the requests that are inside can end, each by its own steps and
without another arrival, and then everything they held is given back. -/
theorem service_drains {s : Surroundings} {c : Config} (hconfig : fromEnv s = .ok c)
    {clock : ℕ} {es : List Event} {w : World} (hwrap : w.admission.enqueued ≤ 2 ^ 63)
    (hrun : (machine c clock).run (machine c clock).initial es = some w) :
    ∃ fs v, (∀ e ∈ fs, ∃ t a, e = Event.step t a) ∧
      (machine c clock).run (machine c clock).initial (es ++ fs) = some v ∧ v.tasks = ∅ ∧
      Idle c v := by
  have hvalid := fromEnv_valid hconfig
  have h := invariant_run hvalid.limits_positive (by omega) hrun
  have henvelopes := h.permits
  have hrecords := h.unfinished_count
  have hunfinished : (unfinished w.registry).length ≤ w.registry.records.entries.length :=
    (List.length_filter_le _ _).trans_eq (List.length_map ..)
  have hcapacity : w.registry.records.entries.length ≤ c.registryCapacity := h.registry.capacity
  have hrank := rank_le w.tasks
  have hfirst := hvalid.maxEnvelopes.2
  have hsecond := hvalid.registryCapacity.2
  obtain ⟨fs, v, hfs, hdrain, hend, hv⟩ :=
    h.drain hvalid.limits_positive rfl (by omega) clock
  exact ⟨fs, v, hfs, Machine.run_trans hrun hdrain, hend, hv.idle hend⟩

theorem service_drains_crowded : ∃ fs v, (machine sampleConfig 0).run
    (machine sampleConfig 0).initial (crowded ++ fs) = some v ∧ v.tasks = ∅ ∧
      Idle sampleConfig v := by
  obtain ⟨w, hw, henqueued, -⟩ := crowded_run
  obtain ⟨fs, v, -, hrun, hend, hidle⟩ := service_drains
    (fromEnv_printed (prints_printed _) sampleConfig_valid) (by omega) hw
  exact ⟨fs, v, hrun, hend, hidle⟩

end ServiceLoad
