import Ja3Proxy.SdkAdmission
import Mathlib.Data.List.Nodup
import Mathlib.Data.List.Pairwise
import Mathlib.Data.List.Perm.Basic
import Mathlib.Order.Lattice

/-! What holds of SDK admission after every sequence of calls, releases and aborts.
The counters are compared with the closures that are still unreleased; the log says who was
granted a permit and who was waiting then. -/
namespace SdkAdmissionInvariant

open CountTables SdkAdmission TransitionRuns

def live (held : List Permit) : ℕ := held.countP fun p => !p.released

def liveIn (held : List Permit) (partition : String) : ℕ :=
  held.countP fun p => !p.released && p.partition == partition

def waitingIn (waiting : List Waiting) (partition : String) : ℕ :=
  waiting.countP fun x => x.partition == partition

def Room (limits : Limits) (held : List Permit) (partition : String) : Prop :=
  (live held : ℤ) < limits.maxConcurrent ∧
    (liveIn held partition : ℤ) < limits.maxConcurrentPerPartition

structure Accurate (a : Admission) (held reservations : List Permit) : Prop where
  active : a.active = live held
  byPartition : Counts a.byPartition (liveIn held)
  queuedByPartition : Counts a.queuedByPartition (waitingIn a.waiting)
  reserved : a.reserved = live reservations
  reservedByPartition : Counts a.reservedByPartition (liveIn reservations)

def Conserving (w : World) : Prop :=
  ∀ x ∈ w.admission.waiting, ¬Room w.admission.limits w.permits x.partition

/-- A grant had room, did not go to an aborted call and passed over no earlier waiter that had
room as well. -/
structure Fair (s : Settlement) : Prop where
  room : Room s.before.limits s.held s.item.partition
  alive : s.aborted = false
  first : ∀ x ∈ s.before.waiting, x.ticket < s.item.ticket →
    ¬Room s.before.limits s.held x.partition

def InOrder (s t : Settlement) : Prop :=
  s.result = .granted → t.result = .granted → s.item.partition = t.item.partition →
    s.item.ticket < t.item.ticket

structure Recorded (requests : List Waiting) (log : List Settlement) (waiting : List Waiting) :
    Prop where
  tickets : requests.map (·.ticket) = List.range requests.length
  once : (log.map (·.item) ++ waiting).Perm requests
  sorted : waiting.Pairwise fun x y => x.ticket < y.ticket
  fair : ∀ s ∈ log, s.result = .granted → Fair s
  inOrder : log.Pairwise InOrder
  ahead : ∀ s ∈ log, s.result = .granted → ∀ x ∈ waiting, s.item.partition = x.partition →
    s.item.ticket < x.ticket

structure Invariant (w : World) : Prop where
  accurate : Accurate w.admission w.permits w.reservations
  recorded : Recorded w.requests w.log w.admission.waiting
  conserving : Conserving w

theorem live_concat (held : List Permit) (partition : String) :
    live (held ++ [⟨partition, false⟩]) = live held + 1 := by
  simp [live]

theorem liveIn_concat (held : List Permit) (partition k : String) :
    liveIn (held ++ [⟨partition, false⟩]) k =
      liveIn held k + if partition = k then 1 else 0 := by
  simp [liveIn, List.countP_cons]

section Closures

variable {held : List Permit} {n : ℕ} {p : Permit}

theorem live_release (hn : held[n]? = some p) (hp : p.released = false) :
    live (held.set n { p with released := true }) + 1 = live held := by
  obtain ⟨hlt, hget⟩ := List.getElem?_eq_some_iff.mp hn
  have hpos : 0 < live held := by
    rw [live, List.countP_pos_iff]
    exact ⟨p, List.mem_of_getElem? hn, by simp [hp]⟩
  rw [live, List.countP_set hlt, hget]
  simp only [hp, Bool.not_false, Bool.not_true, if_true, Bool.false_eq_true, if_false]
  rw [live] at *
  omega

theorem liveIn_release_self (hn : held[n]? = some p) (hp : p.released = false) :
    liveIn (held.set n { p with released := true }) p.partition + 1 = liveIn held p.partition := by
  obtain ⟨hlt, hget⟩ := List.getElem?_eq_some_iff.mp hn
  have hpos : 0 < liveIn held p.partition := by
    rw [liveIn, List.countP_pos_iff]
    exact ⟨p, List.mem_of_getElem? hn, by simp [hp]⟩
  rw [liveIn, List.countP_set hlt, hget]
  simp only [hp, Bool.not_false, Bool.not_true, beq_self_eq_true, Bool.and_self, if_true,
    Bool.false_and, Bool.false_eq_true, if_false]
  rw [liveIn] at *
  omega

theorem liveIn_release_ne (hn : held[n]? = some p) {k : String} (hk : k ≠ p.partition) :
    liveIn (held.set n { p with released := true }) k = liveIn held k := by
  obtain ⟨hlt, hget⟩ := List.getElem?_eq_some_iff.mp hn
  have hne : (p.partition == k) = false := by simp [hk.symm]
  rw [liveIn, List.countP_set hlt, hget]
  simp [hne, liveIn]

end Closures

theorem waitingIn_concat (waiting : List Waiting) (item : Waiting) (k : String) :
    waitingIn (waiting ++ [item]) k =
      waitingIn waiting k + if item.partition = k then 1 else 0 := by
  simp [waitingIn, List.countP_cons]

theorem waitingIn_middle (front back : List Waiting) (item : Waiting) (k : String) :
    waitingIn (front ++ item :: back) k =
      waitingIn (front ++ back) k + if item.partition = k then 1 else 0 := by
  simp [waitingIn, List.countP_cons, Nat.add_assoc]

section Accuracy

variable {a : Admission} {held reservations : List Permit}

theorem available_iff (h : Accurate a held reservations) (partition : String) :
    a.available partition = true ↔ Room a.limits held partition := by
  simp only [Admission.available, Room, h.active, h.byPartition.getD, Bool.and_eq_true,
    decide_eq_true_eq]

theorem accurate_occupy (h : Accurate a held reservations) (partition : String) :
    Accurate (a.occupy partition) (held ++ [⟨partition, false⟩]) reservations where
  active := by
    rw [live_concat, Admission.occupy]
    have := h.active
    push_cast
    omega
  byPartition := h.byPartition.increment (by simp [liveIn_concat])
    (fun k hk => by simp [liveIn_concat, Ne.symm hk])
  queuedByPartition := h.queuedByPartition
  reserved := h.reserved
  reservedByPartition := h.reservedByPartition

theorem accurate_vacate (h : Accurate a held reservations) {n : ℕ} {p : Permit}
    (hn : held[n]? = some p) (hp : p.released = false) :
    Accurate (a.vacate p.partition) (held.set n { p with released := true }) reservations where
  active := by
    have := h.active
    have := live_release hn hp
    simp only [Admission.vacate]
    omega
  byPartition := h.byPartition.decrement (liveIn_release_self hn hp)
    (fun k hk => liveIn_release_ne hn hk)
  queuedByPartition := h.queuedByPartition
  reserved := h.reserved
  reservedByPartition := h.reservedByPartition

theorem accurate_reserve (h : Accurate a held reservations) {partition : String}
    {diag : SdkErrors.Diagnostics} {usedProxy : Bool} {b : Admission}
    (hb : a.reserve partition diag usedProxy = .ok b) :
    Accurate b held (reservations ++ [⟨partition, false⟩]) := by
  simp only [Admission.reserve] at hb
  split at hb
  · cases hb
  · cases hb
    constructor
    case active => exact h.active
    case byPartition => exact h.byPartition
    case queuedByPartition => exact h.queuedByPartition
    case reserved =>
      have := h.reserved
      rw [live_concat]
      push_cast
      omega
    case reservedByPartition =>
      apply h.reservedByPartition.increment
      · simp [liveIn_concat]
      · intro k hk
        simp [liveIn_concat, Ne.symm hk]

theorem accurate_unreserve (h : Accurate a held reservations) {n : ℕ} {p : Permit}
    (hn : reservations[n]? = some p) (hp : p.released = false) :
    Accurate (a.unreserve p.partition) held (reservations.set n { p with released := true }) where
  active := h.active
  byPartition := h.byPartition
  queuedByPartition := h.queuedByPartition
  reserved := by
    have := h.reserved
    have := live_release hn hp
    simp only [Admission.unreserve]
    omega
  reservedByPartition := h.reservedByPartition.decrement (liveIn_release_self hn hp)
    (fun k hk => liveIn_release_ne hn hk)

theorem accurate_enqueue (h : Accurate a held reservations) (item : Waiting) :
    Accurate (a.enqueue item) held reservations where
  active := h.active
  byPartition := h.byPartition
  queuedByPartition := h.queuedByPartition.increment (by simp [Admission.enqueue, waitingIn_concat])
    (fun k hk => by simp [Admission.enqueue, waitingIn_concat, Ne.symm hk])
  reserved := h.reserved
  reservedByPartition := h.reservedByPartition

theorem accurate_remove (h : Accurate a held reservations) {front back : List Waiting}
    {item : Waiting} {b : Admission} (hsplit : a.waiting = front ++ item :: back)
    (hb : b = { a with
      waiting := front ++ back
      queuedByPartition := decrement a.queuedByPartition item.partition }) :
    Accurate b held reservations := by
  subst hb
  constructor
  case active => exact h.active
  case byPartition => exact h.byPartition
  case queuedByPartition =>
    apply h.queuedByPartition.decrement
    · rw [hsplit]
      simp [waitingIn_middle]
    · intro k hk
      rw [hsplit]
      simp [waitingIn_middle, Ne.symm hk]
  case reserved => exact h.reserved
  case reservedByPartition => exact h.reservedByPartition

end Accuracy

section Record

variable {requests waiting front back : List Waiting} {log : List Settlement} {item : Waiting}

theorem Recorded.ticket_lt (h : Recorded requests log waiting) {x : Waiting} (hx : x ∈ requests) :
    x.ticket < requests.length := by
  have hmem : x.ticket ∈ requests.map (·.ticket) := List.mem_map_of_mem hx
  rw [h.tickets] at hmem
  exact List.mem_range.mp hmem

theorem Recorded.nodup (h : Recorded requests log waiting) :
    (requests.map (·.ticket)).Nodup := by
  rw [h.tickets]
  exact List.nodup_range

theorem Recorded.waiting_mem (h : Recorded requests log waiting) {x : Waiting}
    (hx : x ∈ waiting) : x ∈ requests :=
  h.once.subset (List.mem_append_right _ hx)

theorem Recorded.log_mem (h : Recorded requests log waiting) {s : Settlement} (hs : s ∈ log) :
    s.item ∈ requests :=
  h.once.subset (List.mem_append_left _ (List.mem_map_of_mem hs))

theorem recorded_settle {s : Settlement} (h : Recorded requests log (front ++ s.item :: back))
    (hgrant : s.result = .granted → Fair s ∧ ∀ x ∈ front, x.partition ≠ s.item.partition) :
    Recorded requests (log ++ [s]) (front ++ back) := by
  have hsub : (front ++ back).Sublist (front ++ s.item :: back) :=
    (List.sublist_cons_self s.item back).append_left front
  constructor
  case tickets => exact h.tickets
  case once =>
    refine List.Perm.trans ?_ h.once
    rw [List.map_append, List.append_assoc, List.map_singleton, List.singleton_append]
    exact List.perm_middle.symm.append_left _
  case sorted => exact h.sorted.sublist hsub
  case fair =>
    intro t ht hg
    rcases List.mem_append.mp ht with hold | hnew
    · exact h.fair t hold hg
    · rw [List.mem_singleton.mp hnew] at hg ⊢
      exact (hgrant hg).1
  case inOrder =>
    rw [List.pairwise_append]
    refine ⟨h.inOrder, List.pairwise_singleton _ _, ?_⟩
    intro t ht u hu hgt hgu hpart
    rw [List.mem_singleton.mp hu] at hpart ⊢
    exact h.ahead t ht hgt s.item (by simp) hpart
  case ahead =>
    intro t ht hg x hx hpart
    rcases List.mem_append.mp ht with hold | hnew
    · exact h.ahead t hold hg x (hsub.subset hx) hpart
    · rw [List.mem_singleton.mp hnew] at hg hpart ⊢
      rcases List.mem_append.mp hx with hfront | hback
      · exact absurd hpart.symm ((hgrant hg).2 x hfront)
      · have hsorted := (List.pairwise_append.mp h.sorted).2.1
        exact (List.pairwise_cons.mp hsorted).1 x hback

theorem recorded_enqueue {item : Waiting} (h : Recorded requests log waiting)
    (hticket : item.ticket = requests.length) :
    Recorded (requests ++ [item]) log (waiting ++ [item]) := by
  constructor
  case tickets =>
    rw [List.map_append, h.tickets, List.length_append, List.length_singleton, List.range_succ,
      List.map_singleton, hticket]
  case once =>
    rw [← List.append_assoc]
    exact h.once.append_right [item]
  case sorted =>
    rw [List.pairwise_append]
    refine ⟨h.sorted, List.pairwise_singleton _ _, ?_⟩
    intro x hx y hy
    rw [List.mem_singleton.mp hy, hticket]
    exact h.ticket_lt (h.waiting_mem hx)
  case fair => exact h.fair
  case inOrder => exact h.inOrder
  case ahead =>
    intro s hs hg x hx hpart
    rcases List.mem_append.mp hx with hold | hnew
    · exact h.ahead s hs hg x hold hpart
    · rw [List.mem_singleton.mp hnew, hticket]
      exact h.ticket_lt (h.log_mem hs)

/-- A call that settles at once, as if it had joined the end of the queue for a moment. -/
theorem recorded_new {s : Settlement} (h : Recorded requests log waiting)
    (hticket : item.ticket = requests.length) (hitem : s.item = item)
    (hgrant : s.result = .granted → Fair s ∧ ∀ x ∈ waiting, x.partition ≠ item.partition) :
    Recorded (requests ++ [item]) (log ++ [s]) waiting := by
  subst hitem
  have hnew := recorded_settle (recorded_enqueue h hticket) hgrant
  rwa [List.append_nil] at hnew

/-- The ticket is the identity of a waiter, so that the set holds it only once. -/
theorem Recorded.erase (h : Recorded requests log (front ++ item :: back)) :
    (front ++ item :: back).erase item = front ++ back := by
  have hfresh : item ∉ front := by
    intro hmem
    have hlt := (List.pairwise_append.mp h.sorted).2.2 item hmem item List.mem_cons_self
    exact absurd hlt (Nat.lt_irrefl _)
  rw [List.erase_append_right _ hfresh, List.erase_cons_head]

end Record

theorem not_room_grant {limits : Limits} {held : List Permit} {k : String}
    (h : ¬Room limits held k) (partition : String) :
    ¬Room limits (held ++ [⟨partition, false⟩]) k := by
  rintro ⟨hall, hone⟩
  rw [live_concat] at hall
  rw [liveIn_concat] at hone
  push_cast at hall hone
  apply h
  constructor
  · omega
  · omega

structure Passed (w : World) (front back : List Waiting) : Prop where
  accurate : Accurate w.admission w.permits w.reservations
  recorded : Recorded w.requests w.log w.admission.waiting
  split : w.admission.waiting = front ++ back
  full : ∀ x ∈ front, ¬Room w.admission.limits w.permits x.partition

theorem remove_eq {w : World} {front back : List Waiting} {item : Waiting}
    (hrec : Recorded w.requests w.log w.admission.waiting)
    (hsplit : w.admission.waiting = front ++ item :: back) :
    w.admission.remove item = some { w.admission with
      waiting := front ++ back
      queuedByPartition := decrement w.admission.queuedByPartition item.partition } := by
  have hmem : item ∈ w.admission.waiting := by simp [hsplit]
  rw [hsplit] at hrec
  rw [Admission.remove, if_pos hmem, hsplit, hrec.erase]

theorem passed_serve {w : World} {front back : List Waiting} {item : Waiting}
    (h : Passed w front (item :: back)) : ∃ front', Passed (w.serve item) front' back := by
  have hsplit := h.split
  have hrec := h.recorded
  have hremove := remove_eq hrec hsplit
  have hroom := available_iff h.accurate item.partition
  rw [hsplit] at hrec
  rw [World.serve, hremove]
  split
  · rename_i havailable
    have hfits := hroom.mp havailable
    have hremoved := accurate_remove h.accurate hsplit rfl
    refine ⟨front, ?_⟩
    simp only [Option.getD_some]
    split
    · constructor
      case accurate => exact hremoved
      case recorded => exact recorded_settle hrec (fun hg => by cases hg)
      case split => rfl
      case full => exact h.full
    · rename_i halive
      constructor
      case accurate => exact accurate_occupy hremoved item.partition
      case recorded =>
        apply recorded_settle hrec
        intro _
        refine ⟨⟨hfits, by simpa using halive, ?_⟩, ?_⟩
        · intro x hx hlt
          change x ∈ w.admission.waiting at hx
          rw [hsplit] at hx
          rcases List.mem_append.mp hx with hfront | hback
          · exact h.full x hfront
          · have hsorted := (List.pairwise_append.mp hrec.sorted).2.1
            have hle : item.ticket ≤ x.ticket := by
              rcases List.mem_cons.mp hback with rfl | hrest
              · exact Nat.le_refl _
              · exact Nat.le_of_lt ((List.pairwise_cons.mp hsorted).1 x hrest)
            change x.ticket < item.ticket at hlt
            omega
        · intro x hx hpart
          apply h.full x hx
          rw [hpart]
          exact hfits
      case split => rfl
      case full =>
        intro x hx
        exact not_room_grant (h.full x hx) item.partition
  · rename_i hnone
    refine ⟨front ++ [item], h.accurate, h.recorded, by simp [hsplit], ?_⟩
    intro x hx
    rcases List.mem_append.mp hx with hfront | hitem
    · exact h.full x hfront
    · rw [List.mem_singleton.mp hitem]
      exact fun hfits => hnone (hroom.mpr hfits)

theorem passed_loop {back : List Waiting} {w : World} {front : List Waiting}
    (h : Passed w front back) : Invariant (back.foldl World.serve w) := by
  induction back generalizing w front with
  | nil =>
    refine ⟨h.accurate, h.recorded, ?_⟩
    intro x hx
    rw [List.foldl_nil, h.split, List.append_nil] at hx
    exact h.full x hx
  | cons item back ih =>
    obtain ⟨front', hpassed⟩ := passed_serve h
    exact ih hpassed

theorem invariant_dispatch {w : World}
    (hacc : Accurate w.admission w.permits w.reservations)
    (hrec : Recorded w.requests w.log w.admission.waiting) : Invariant w.dispatch := by
  have hstart : Passed w [] w.admission.waiting := by
    refine ⟨hacc, hrec, rfl, ?_⟩
    intro x hx
    cases hx
  exact passed_loop hstart

section Steps

variable {w : World}

theorem invariant_initial {limits : Limits} {a : Admission} (h : Admission.new limits = .ok a) :
    Invariant (.initial a) := by
  simp only [Admission.new] at h
  split at h
  · cases h
  · cases h
    constructor
    case accurate =>
      exact ⟨rfl, counts_empty, counts_empty, rfl, counts_empty⟩
    case recorded =>
      refine ⟨rfl, List.Perm.refl _, List.Pairwise.nil, ?_, List.Pairwise.nil, ?_⟩
      · intro s hs
        cases hs
      · intro s hs
        cases hs
    case conserving =>
      intro x hx
      cases hx

/-- A partition that has room and no queue leaves nobody behind. -/
theorem no_queue {partition : String} (h : Invariant w)
    (hq : (w.admission.queuedByPartition partition).isSome = false) :
    ∀ x ∈ w.admission.waiting, x.partition ≠ partition := by
  intro x hx hpart
  have hpos : 0 < waitingIn w.admission.waiting partition := by
    rw [waitingIn, List.countP_pos_iff]
    exact ⟨x, hx, by simp [hpart]⟩
  have := (h.accurate.queuedByPartition.isSome_iff partition).mpr hpos
  rw [hq] at this
  cases this

theorem exists_queue {partition : String} (h : Invariant w)
    (hq : (w.admission.queuedByPartition partition).isSome = true) :
    ∃ x ∈ w.admission.waiting, x.partition = partition := by
  have hpos := (h.accurate.queuedByPartition.isSome_iff partition).mp hq
  rw [waitingIn, List.countP_pos_iff] at hpos
  obtain ⟨x, hx, hpart⟩ := hpos
  exact ⟨x, hx, by simpa using hpart⟩

theorem invariant_acquire {item : Waiting} (h : Invariant w)
    (hticket : item.ticket = w.requests.length) :
    Invariant ({ w with requests := w.requests ++ [item] }.acquire item) := by
  have hroom := available_iff h.accurate item.partition
  simp only [World.acquire]
  split
  · exact ⟨h.accurate, recorded_new h.recorded hticket rfl (fun hg => by cases hg), h.conserving⟩
  · rename_i halive
    split
    · rename_i hfast
      rw [Bool.and_eq_true, Bool.not_eq_true'] at hfast
      constructor
      case accurate => exact accurate_occupy h.accurate item.partition
      case recorded =>
        apply recorded_new h.recorded hticket rfl
        intro _
        refine ⟨⟨hroom.mp hfast.1, by simpa using halive, ?_⟩, no_queue h hfast.2⟩
        intro x hx _
        exact h.conserving x hx
      case conserving =>
        intro x hx
        exact not_room_grant (h.conserving x hx) item.partition
    · rename_i hslow
      split
      · exact ⟨h.accurate, recorded_new h.recorded hticket rfl (fun hg => by cases hg),
          h.conserving⟩
      · refine ⟨accurate_enqueue h.accurate item, recorded_enqueue h.recorded hticket, ?_⟩
        intro x hx
        rcases List.mem_append.mp hx with hold | hnew
        · exact h.conserving x hold
        · rw [List.mem_singleton.mp hnew]
          intro hfits
          have havailable := hroom.mpr hfits
          cases hq : (w.admission.queuedByPartition item.partition).isSome with
          | false =>
            apply hslow
            rw [havailable, hq]
            rfl
          | true =>
            -- the queue of the partition has no room by the invariant
            obtain ⟨y, hy, hpart⟩ := exists_queue h hq
            apply h.conserving y hy
            rw [hpart]
            exact hfits

theorem invariant_abandon {item : Waiting} (h : Invariant w) : Invariant (w.abandon item) := by
  rw [World.abandon]
  by_cases hmem : item ∈ w.admission.waiting
  · obtain ⟨front, back, hsplit⟩ := List.append_of_mem hmem
    have hrec := h.recorded
    rw [remove_eq hrec hsplit]
    rw [hsplit] at hrec
    apply invariant_dispatch
    · exact accurate_remove h.accurate hsplit rfl
    · exact recorded_settle hrec (fun hg => by cases hg)
  · rw [Admission.remove, if_neg hmem]
    exact h

theorem invariant_release {n : ℕ} {p : Permit} (h : Invariant w) (hn : w.permits[n]? = some p) :
    Invariant (w.release n p) := by
  rw [World.release]
  split
  · exact h
  · rename_i hp
    apply invariant_dispatch
    · exact accurate_vacate h.accurate hn (by simpa using hp)
    · exact h.recorded

theorem invariant_releaseReservation {n : ℕ} {p : Permit} (h : Invariant w)
    (hn : w.reservations[n]? = some p) : Invariant (w.releaseReservation n p) := by
  rw [World.releaseReservation]
  split
  · exact h
  · rename_i hp
    exact ⟨accurate_unreserve h.accurate hn (by simpa using hp), h.recorded, h.conserving⟩

theorem invariant_reserve (h : Invariant w) (partition : String) (diag : SdkErrors.Diagnostics)
    (usedProxy : Bool) : Invariant (w.reserve partition diag usedProxy) := by
  rw [World.reserve]
  split
  · exact h
  · rename_i a ha
    have hacc := accurate_reserve h.accurate ha
    simp only [Admission.reserve] at ha
    split at ha
    · cases ha
    · cases ha
      exact ⟨hacc, h.recorded, h.conserving⟩

/-- Lower limits leave less room. -/
theorem invariant_constrain (h : Invariant w) (limits : Limits) :
    Invariant { w with admission := w.admission.constrain limits } := by
  refine ⟨⟨h.accurate.active, h.accurate.byPartition, h.accurate.queuedByPartition,
    h.accurate.reserved, h.accurate.reservedByPartition⟩, h.recorded, ?_⟩
  rintro x hx ⟨hall, hone⟩
  apply h.conserving x hx
  constructor
  · exact lt_of_lt_of_le hall (min_le_left _ _)
  · exact lt_of_lt_of_le hone (min_le_left _ _)

theorem invariant_step {v : World} {e : Event} (h : Invariant w) (hn : next w e = some v) :
    Invariant v := by
  cases e with
  | tick d ms =>
    cases hn
    exact ⟨h.accurate, h.recorded, h.conserving⟩
  | reserve partition diag usedProxy =>
    cases hn
    exact invariant_reserve h partition diag usedProxy
  | releaseReservation n =>
    obtain ⟨p, hp, rfl⟩ := Option.map_eq_some_iff.mp hn
    exact invariant_releaseReservation h hp
  | acquire partition d diag usedProxy =>
    cases hn
    exact invariant_acquire h rfl
  | release n =>
    obtain ⟨p, hp, rfl⟩ := Option.map_eq_some_iff.mp hn
    exact invariant_release h hp
  | abort d cause =>
    cases hn
    exact ⟨h.accurate, h.recorded, h.conserving⟩
  | listener item =>
    simp only [next] at hn
    split at hn
    · cases hn
      exact invariant_abandon h
    · cases hn
  | constrain limits =>
    cases hn
    exact invariant_constrain h limits

end Steps

structure Extends (w v : World) : Prop where
  aborted : ∀ d, (w.deadline d).aborted = true → (v.deadline d).aborted = true
  requests : ∀ x ∈ w.requests, x ∈ v.requests
  log : ∃ later, v.log = w.log ++ later ∧
    ∀ s ∈ later, w.aborted s.item = true → s.aborted = true

section Later

variable {w v u : World}

theorem Extends.refl (w : World) : Extends w w :=
  ⟨fun _ h => h, fun _ h => h, [], by simp, by simp⟩

theorem Extends.trans (h : Extends w v) (k : Extends v u) : Extends w u := by
  obtain ⟨earlier, hv, hearlier⟩ := h.log
  obtain ⟨later, hu, hlater⟩ := k.log
  refine ⟨fun d hd => k.aborted d (h.aborted d hd), fun x hx => k.requests x (h.requests x hx),
    earlier ++ later, by rw [hu, hv, List.append_assoc], ?_⟩
  intro s hs hw
  rcases List.mem_append.mp hs with hs | hs
  · exact hearlier s hs hw
  · exact hlater s hs (h.aborted s.item.deadline hw)

/-- A step that leaves the log as it is. -/
theorem extends_of_log (haborted : ∀ d, (w.deadline d).aborted = true →
    (v.deadline d).aborted = true)
    (hrequests : ∀ x ∈ w.requests, x ∈ v.requests) (hlog : v.log = w.log) : Extends w v :=
  ⟨haborted, hrequests, [], by simp [hlog], by simp⟩

theorem extends_settle (w : World) (item : Waiting) (result : Result) (a : Admission) :
    Extends w (w.settle item result a) := by
  refine ⟨fun _ h => h, fun _ h => h, [⟨item, result, w.admission, w.permits, w.aborted item⟩],
    rfl, ?_⟩
  intro s hs hw
  rw [List.mem_singleton.mp hs] at hw ⊢
  exact hw

theorem extends_grant (w : World) (item : Waiting) (a : Admission) :
    Extends w (w.grant item a) := by
  have hsettled := extends_settle w item .granted (a.occupy item.partition)
  exact ⟨hsettled.aborted, hsettled.requests, hsettled.log⟩

theorem extends_serve (w : World) (item : Waiting) : Extends w (w.serve item) := by
  rw [World.serve]
  split
  · simp only []
    split
    · exact extends_settle w item _ _
    · exact extends_grant w item _
  · exact .refl w

theorem extends_dispatch (w : World) : Extends w w.dispatch := by
  rw [World.dispatch]
  generalize w.admission.waiting = items
  induction items generalizing w with
  | nil => exact .refl w
  | cons item items ih => exact (extends_serve w item).trans (ih (w.serve item))

theorem extends_acquire (w : World) (item : Waiting) : Extends w (w.acquire item) := by
  rw [World.acquire]
  split
  · exact extends_settle w item _ _
  · split
    · exact extends_grant w item _
    · split
      · exact extends_settle w item _ _
      · exact extends_of_log (fun _ h => h) (fun _ h => h) rfl

theorem extends_abandon (w : World) (item : Waiting) : Extends w (w.abandon item) := by
  rw [World.abandon]
  split
  · exact .refl w
  · exact (extends_settle w item _ _).trans (extends_dispatch _)

theorem extends_release (w : World) (n : ℕ) (p : Permit) : Extends w (w.release n p) := by
  rw [World.release]
  split
  · exact .refl w
  · refine Extends.trans ?_ (extends_dispatch _)
    exact extends_of_log (fun _ h => h) (fun _ h => h) rfl

theorem signal_aborted (d : Deadline) (kind : Option SdkErrors.FailureKind) :
    (d.signal kind).aborted = true := by
  rw [Deadline.signal]
  split
  · assumption
  · rfl

theorem abort_aborted (d : Deadline) (cause : Cause) : (d.abort cause).aborted = true := by
  cases cause with
  | timer => exact signal_aborted _ _
  | parent timedOut kind => exact signal_aborted _ _
  | closing => exact signal_aborted _ _

theorem extends_put (w : World) {d : ℕ} {x : Deadline}
    (h : (w.deadline d).aborted = true → x.aborted = true) : Extends w (w.put d x) := by
  refine extends_of_log ?_ (fun _ hx => hx) rfl
  intro k hk
  by_cases hkd : k = d
  · subst hkd
    simpa [World.put] using h hk
  · simpa [World.put, Function.update_of_ne hkd] using hk

theorem extends_step {e : Event} (hn : next w e = some v) : Extends w v := by
  cases e with
  | tick d ms =>
    cases hn
    exact extends_put w fun h => h
  | reserve partition diag usedProxy =>
    cases hn
    rw [World.reserve]
    split
    · exact .refl w
    · exact extends_of_log (fun _ h => h) (fun _ h => h) rfl
  | releaseReservation n =>
    obtain ⟨p, _, rfl⟩ := Option.map_eq_some_iff.mp hn
    rw [World.releaseReservation]
    split
    · exact .refl w
    · exact extends_of_log (fun _ h => h) (fun _ h => h) rfl
  | acquire partition d diag usedProxy =>
    cases hn
    refine Extends.trans ?_ (extends_acquire _ _)
    exact extends_of_log (fun _ h => h) (fun x hx => List.mem_append_left _ hx) rfl
  | release n =>
    obtain ⟨p, _, rfl⟩ := Option.map_eq_some_iff.mp hn
    exact extends_release w n p
  | abort d cause =>
    cases hn
    exact extends_put w fun _ => abort_aborted _ cause
  | listener item =>
    simp only [next] at hn
    split at hn
    · cases hn
      exact extends_abandon w item
    · cases hn
  | constrain limits =>
    cases hn
    exact extends_of_log (fun _ h => h) (fun _ h => h) rfl

/-- A waiter that is aborted does not receive a permit later. -/
theorem aborted_not_granted (h : Invariant w) (k : Invariant v) (hext : Extends w v) {x : Waiting}
    (hx : x ∈ w.admission.waiting) (hab : w.aborted x = true) {s : Settlement} (hs : s ∈ v.log)
    (hticket : s.item.ticket = x.ticket) : s.result ≠ .granted := by
  intro hgrant
  have hreq : x ∈ v.requests := hext.requests x (h.recorded.waiting_mem hx)
  have hitem : s.item = x :=
    List.inj_on_of_nodup_map k.recorded.nodup (k.recorded.log_mem hs) hreq hticket
  obtain ⟨later, hlog, hlater⟩ := hext.log
  rw [hlog] at hs
  rcases List.mem_append.mp hs with hold | hnew
  · have hnodup : (w.log.map (·.item) ++ w.admission.waiting).Nodup :=
      h.recorded.once.nodup_iff.mpr (List.Nodup.of_map _ h.recorded.nodup)
    exact (List.nodup_append.mp hnodup).2.2 s.item (List.mem_map_of_mem hold) x hx hitem
  · have habove := hlater s hnew (by rw [hitem]; exact hab)
    have halive := (k.recorded.fair s (by rw [hlog]; exact hs) hgrant).alive
    rw [habove] at halive
    cases halive

end Later

/-- In every state between two operations the six counters are the true numbers of permits,
waiters and reservations and no waiter has room; every call of `acquire` has settled once or
waits, grants were fair and in the order of the calls; and later operations neither settle a
call again nor grant a permit to a waiter that is aborted. -/
theorem sdk_admission {limits : Limits} {a : Admission} {es fs : List Event} {w v : World}
    (ha : Admission.new limits = .ok a) (hw : (machine a).run (machine a).initial es = some w)
    (hv : (machine a).run w fs = some v) :
    Accurate w.admission w.permits w.reservations ∧ Conserving w ∧
      Recorded w.requests w.log w.admission.waiting ∧
      (∃ later, v.log = w.log ++ later) ∧
      ∀ x ∈ w.admission.waiting, w.aborted x = true → ∀ s ∈ v.log,
        s.item.ticket = x.ticket → s.result ≠ .granted := by
  have hstep : ∀ s e t, Invariant s → (machine a).next s e = some t → Invariant t :=
    fun s e t h hn => invariant_step h hn
  have hiw : Invariant w := Machine.run_preserves hstep (invariant_initial ha) hw
  have hiv : Invariant v := Machine.run_preserves hstep hiw hv
  have hext : Extends w v :=
    Machine.run_preserves (fun s e t h hn => h.trans (extends_step hn)) (.refl w) hv
  obtain ⟨later, hlog, _⟩ := hext.log
  refine ⟨hiw.accurate, hiw.conserving, hiw.recorded, ⟨later, hlog⟩, ?_⟩
  intro x hx hab s hs hticket
  exact aborted_not_granted hiw hiv hext hx hab hs hticket

def oneAtATime : Admission := { limits := ⟨1, 1, 2, 2⟩ }

def contended : List Event :=
  [.acquire "a" 0 SdkErrors.defaultDiagnostics false,
    .acquire "b" 1 SdkErrors.defaultDiagnostics false,
    .acquire "b" 2 SdkErrors.defaultDiagnostics false, .abort 1 .timer]

/-- The first of two waiters is aborted and its listener has not run when the permit is
released: the second one gets it. -/
theorem sdk_admission_handover :
    ∃ w v, (machine oneAtATime).run (machine oneAtATime).initial contended = some w ∧
      (machine oneAtATime).run w [.release 0, .release 0] = some v ∧
      w.admission.waiting.length = 2 ∧
      v.log.map (fun s => (s.item.ticket, decide (s.result = .granted))) =
        [(0, true), (1, false), (2, true)] ∧
      Accurate v.admission v.permits v.reservations ∧ Conserving v ∧
      ∀ x ∈ w.admission.waiting, w.aborted x = true → ∀ s ∈ v.log,
        s.item.ticket = x.ticket → s.result ≠ .granted := by
  have hnew : Admission.new ⟨1, 1, 2, 2⟩ = .ok oneAtATime := rfl
  obtain ⟨w, hw⟩ : ∃ w, (machine oneAtATime).run (machine oneAtATime).initial contended = some w :=
    ⟨_, rfl⟩
  obtain ⟨v, hv⟩ : ∃ v, (machine oneAtATime).run w [.release 0, .release 0] = some v := by
    cases hw
    exact ⟨_, rfl⟩
  obtain ⟨_, _, _, _, habort⟩ := sdk_admission hnew hw hv
  have hall := Machine.run_trans hw hv
  obtain ⟨hacc, hcons, _⟩ := sdk_admission hnew hall (Machine.run_nil _ v)
  refine ⟨w, v, hw, hv, ?_, ?_, hacc, hcons, habort⟩
  · cases hw
    rfl
  · cases hw
    cases hv
    decide +kernel

end SdkAdmissionInvariant
