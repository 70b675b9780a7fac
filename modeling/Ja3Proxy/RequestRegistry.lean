import Ja3Proxy.FiniteMaps
import Ja3Proxy.RequestRecord
import Ja3Proxy.TransitionRuns

/-! `Registry` of `src/registry.rs`: records of active and recent requests by their owner.
An operation of the registry reads the clock once for each stored record and may take time
in between. A record outlives its entry as long as somebody holds it, so records are kept
apart from the map, by the order in which they were made. -/
namespace RequestRegistry

open FiniteMaps RequestRecord TransitionRuns TransportErrors

structure Key where
  principal : String
  partition : String
  id : String
  deriving DecidableEq, Repr

structure Config where
  capacity : ℕ
  ttl : ℕ
  deriving DecidableEq, Repr

/-- A record with the key it was registered under and the argument of its first `finish`. -/
structure Held where
  key : Key
  record : Record
  first : Option (Option TransportError)
  deriving DecidableEq, Repr

structure World where
  clock : ℕ
  records : AList (fun _ : Key => ℕ)
  heap : List Held

def World.initial (clock : ℕ) : World := ⟨clock, ∅, []⟩

/-- `finished.is_none_or(|at| at.elapsed() < ttl)` -/
def recent (ttl : ℕ) (r : Record) (now : ℕ) : Bool :=
  match r.finished with
  | none => true
  | some finished => now - finished < ttl

/-- The readings of the clock are not older than its last value, nor newer than the next. -/
def Timely (w : World) (readings : Key → ℕ) (now : ℕ) : Prop :=
  w.clock ≤ now ∧ ∀ k ∈ w.records.keys, w.clock ≤ readings k ∧ readings k ≤ now

instance (w : World) (readings : Key → ℕ) (now : ℕ) : Decidable (Timely w readings now) :=
  inferInstanceAs (Decidable (_ ∧ _))

def World.keeps (c : Config) (w : World) (readings : Key → ℕ) (k : Key) (n : ℕ) : Bool :=
  (w.heap[n]?).all fun h => recent c.ttl h.record (readings k)

def retainRecent (c : Config) (w : World) (readings : Key → ℕ) (now : ℕ) : World :=
  { w with clock := now, records := retain (w.keeps c readings) w.records }

def register (c : Config) (w : World) (principal partition : String) (diagnostics : Diagnostics)
    (started : ℕ) (readings : Key → ℕ) (now : ℕ) : World × Except TransportError ℕ :=
  let w := retainRecent c w readings now
  let key := ⟨principal, partition, diagnostics.requestId⟩
  if (w.records.lookup key).isSome then (w, .error (.fromCode .duplicateRequest))
  else if c.capacity ≤ w.records.entries.length then (w, .error (.fromCode .busy))
  else
    ({ w with
      records := w.records.insert key w.heap.length
      heap := w.heap ++ [⟨key, ⟨started, now, diagnostics, none, none⟩, none⟩] },
      .ok w.heap.length)

def get (c : Config) (w : World) (key : Key) (readings : Key → ℕ) (now : ℕ) :
    World × Except TransportError ℕ :=
  let w := retainRecent c w readings now
  match w.records.lookup key with
  | some n => (w, .ok n)
  | none => (w, .error (.fromCode .contextNotFound))

def Held.finish (h : Held) (now : ℕ) (error : Option TransportError) : Held :=
  { h with
    record := (h.record.finish now error).1
    first := h.first.orElse fun _ => some error }

inductive Event where
  | register (principal partition : String) (diagnostics : Diagnostics) (started : ℕ)
      (readings : Key → ℕ) (now : ℕ)
  | get (key : Key) (readings : Key → ℕ) (now : ℕ)
  | cleanup (readings : Key → ℕ) (now : ℕ)
  | update (n : ℕ) (f : Diagnostics → Diagnostics)
  | finish (n : ℕ) (now : ℕ) (error : Option TransportError)

def next (c : Config) (w : World) : Event → Option World
  | .register principal partition diagnostics started readings now =>
    if Timely w readings now then
      some (register c w principal partition diagnostics started readings now).1
    else none
  | .get key readings now =>
    if Timely w readings now then some (get c w key readings now).1 else none
  | .cleanup readings now =>
    if Timely w readings now then some (retainRecent c w readings now) else none
  | .update n f =>
    some { w with heap := w.heap.modify n fun h => { h with record := h.record.update f } }
  | .finish n now error =>
    if w.clock ≤ now then
      some { w with clock := now, heap := w.heap.modify n fun h => h.finish now error }
    else none

def machine (c : Config) (clock : ℕ) : Machine World Event := ⟨.initial clock, next c⟩

def Decided (h : Held) : Prop :=
  match h.first with
  | none => h.record.finished = none ∧ h.record.error = none
  | some none =>
    h.record.finished ≠ none ∧ h.record.error = none ∧ h.record.diagnostics.phase = .complete
  | some (some e) =>
    h.record.finished ≠ none ∧ h.record.error = some (e.withDiagnostics h.record.diagnostics)

structure Invariant (c : Config) (w : World) : Prop where
  capacity : w.records.entries.length ≤ c.capacity
  listed : ∀ k (n : ℕ), w.records.lookup k = some n → ∃ h, w.heap[n]? = some h ∧ h.key = k
  /-- A record without its entry was finished a whole `ttl` ago. -/
  kept : ∀ (n : ℕ) h, w.heap[n]? = some h → w.records.lookup h.key = some n ∨
    ∃ t, h.record.finished = some t ∧ c.ttl ≤ w.clock - t
  decided : ∀ (n : ℕ) h, w.heap[n]? = some h → Decided h

variable {c : Config} {w v : World} {readings : Key → ℕ} {now : ℕ}

theorem Invariant.initial (clock : ℕ) : Invariant c (.initial clock) where
  capacity := Nat.zero_le _
  listed := by simp [World.initial]
  kept := by simp [World.initial]
  decided := by simp [World.initial]

theorem recent_false {ttl : ℕ} {r : Record} (h : recent ttl r now = false) :
    ∃ t, r.finished = some t ∧ ttl ≤ now - t := by
  unfold recent at h
  split at h
  · cases h
  · next t ht => exact ⟨t, ht, by simpa using h⟩

theorem recent_of_later {ttl : ℕ} {r : Record} {later : ℕ} (hle : now ≤ later)
    (h : recent ttl r later = true) : recent ttl r now = true := by
  unfold recent at h ⊢
  split
  · rfl
  · next t ht =>
    simp only [ht, decide_eq_true_eq] at h ⊢
    omega

theorem lookup_mem_keys {k : Key} {n : ℕ} (h : w.records.lookup k = some n) :
    k ∈ w.records.keys :=
  AList.mem_keys.mp (AList.lookup_isSome.mp (by rw [h]; rfl))

theorem retainRecent_invariant (h : Invariant c w) (ht : Timely w readings now) :
    Invariant c (retainRecent c w readings now) where
  capacity := le_trans (retain_length_le _ _) h.capacity
  listed := by
    intro k n hk
    exact h.listed k n (lookup_retain.mp hk).1
  kept := by
    intro n g hg
    rcases h.kept n g hg with hl | ⟨t, hf, hle⟩
    · by_cases hkeep : recent c.ttl g.record (readings g.key) = true
      · refine .inl (lookup_retain.mpr ⟨hl, ?_⟩)
        change w.heap[n]? = some g at hg
        simpa [World.keeps, hg] using hkeep
      · obtain ⟨t, hf, hle⟩ := recent_false (by simpa using hkeep)
        have hnow := (ht.2 g.key (lookup_mem_keys hl)).2
        exact .inr ⟨t, hf, show c.ttl ≤ now - t by omega⟩
    · have hnow := ht.1
      exact .inr ⟨t, hf, show c.ttl ≤ now - t by omega⟩
  decided := h.decided

theorem lookup_lt (h : Invariant c w) {k : Key} {n : ℕ} (hk : w.records.lookup k = some n) :
    n < w.heap.length := by
  obtain ⟨g, hg, -⟩ := h.listed k n hk
  exact (List.getElem?_eq_some_iff.mp hg).1

/-- A fresh record under a key without an entry. -/
theorem insert_invariant (h : Invariant c w) {key : Key} (hkey : w.records.lookup key = none)
    (hroom : w.records.entries.length < c.capacity) (r : Record) (hf : r.finished = none)
    (he : r.error = none) :
    Invariant c { w with
      records := w.records.insert key w.heap.length
      heap := w.heap ++ [⟨key, r, none⟩] } := by
  have hnew : key ∉ w.records := AList.lookup_eq_none.mp hkey
  have hother : ∀ k, k ≠ key → (w.records.insert key w.heap.length).lookup k = w.records.lookup k :=
    fun k hk => AList.lookup_insert_ne hk
  have hcases : ∀ (n : ℕ) g, (w.heap ++ [⟨key, r, none⟩])[n]? = some g →
      w.heap[n]? = some g ∨ n = w.heap.length ∧ g = ⟨key, r, none⟩ := by
    intro n g hg
    by_cases hn : n < w.heap.length
    · rw [List.getElem?_append_left hn] at hg
      exact .inl hg
    · rw [List.getElem?_append_right (by omega), List.getElem?_singleton] at hg
      split at hg
      · exact .inr ⟨by omega, (Option.some.inj hg).symm⟩
      · cases hg
  constructor
  · change (w.records.insert key w.heap.length).entries.length ≤ c.capacity
    rw [AList.entries_insert_of_notMem hnew]
    exact hroom
  · intro k n hk
    by_cases hkk : k = key
    · subst hkk
      have hn : w.heap.length = n := by simpa using hk
      subst hn
      exact ⟨⟨k, r, none⟩, by simp, rfl⟩
    · rw [hother k hkk] at hk
      obtain ⟨g, hg, hgk⟩ := h.listed k n hk
      refine ⟨g, ?_, hgk⟩
      change (w.heap ++ _)[n]? = some g
      rw [List.getElem?_append_left (lookup_lt h hk)]
      exact hg
  · intro n g hg
    rcases hcases n g hg with hg | ⟨rfl, rfl⟩
    · rcases h.kept n g hg with hl | hold
      · have hne : g.key ≠ key := by
          rintro rfl
          rw [hkey] at hl
          cases hl
        exact .inl ((hother _ hne).trans hl)
      · exact .inr hold
    · exact .inl (AList.lookup_insert _)
  · intro n g hg
    rcases hcases n g hg with hg | ⟨rfl, rfl⟩
    · exact h.decided n g hg
    · exact ⟨hf, he⟩

/-- The three outcomes of `register`. -/
theorem register_cases (c : Config) (w : World) (principal partition : String)
    (d : Diagnostics) (started : ℕ) (readings : Key → ℕ) (now : ℕ) :
    (∃ n, (retainRecent c w readings now).records.lookup ⟨principal, partition, d.requestId⟩ =
        some n ∧ register c w principal partition d started readings now =
        (retainRecent c w readings now, .error (.fromCode .duplicateRequest))) ∨
    ((retainRecent c w readings now).records.lookup ⟨principal, partition, d.requestId⟩ = none ∧
      c.capacity ≤ (retainRecent c w readings now).records.entries.length ∧
      register c w principal partition d started readings now =
        (retainRecent c w readings now, .error (.fromCode .busy))) ∨
    ((retainRecent c w readings now).records.lookup ⟨principal, partition, d.requestId⟩ = none ∧
      (retainRecent c w readings now).records.entries.length < c.capacity ∧
      register c w principal partition d started readings now =
        ({ retainRecent c w readings now with
          records := (retainRecent c w readings now).records.insert
            ⟨principal, partition, d.requestId⟩ w.heap.length
          heap := w.heap ++ [⟨⟨principal, partition, d.requestId⟩,
            ⟨started, now, d, none, none⟩, none⟩] }, .ok w.heap.length)) := by
  simp only [register]
  split
  · next hsome =>
    obtain ⟨n, hn⟩ := Option.isSome_iff_exists.mp hsome
    exact .inl ⟨n, hn, rfl⟩
  · next hnone =>
    split
    · next hfull => exact .inr (.inl ⟨by simpa using hnone, hfull, rfl⟩)
    · next hroom =>
      exact .inr (.inr ⟨by simpa using hnone, by omega, rfl⟩)

/-- A record changes in place: its key stays, and a finished one is not touched. -/
theorem modify_invariant (h : Invariant c w) {n : ℕ} {f : Held → Held} {clock : ℕ}
    (hclock : w.clock ≤ clock) (hkey : ∀ g, (f g).key = g.key)
    (hfinished : ∀ g t, g.record.finished = some t → (f g).record.finished = some t)
    (hdecided : ∀ g, Decided g → Decided (f g)) :
    Invariant c { w with clock := clock, heap := w.heap.modify n f } := by
  have hget : ∀ (m : ℕ) g, (w.heap.modify n f)[m]? = some g →
      ∃ g', w.heap[m]? = some g' ∧ g = if n = m then f g' else g' := by
    intro m g hg
    rw [List.getElem?_modify] at hg
    obtain ⟨g', hg', rfl⟩ := Option.map_eq_some_iff.mp hg
    exact ⟨g', hg', by split <;> rfl⟩
  constructor
  · exact h.capacity
  · intro k m hk
    obtain ⟨g, hg, rfl⟩ := h.listed k m hk
    refine ⟨if n = m then f g else g, ?_, ?_⟩
    · simp only [List.getElem?_modify, hg]
      split <;> rfl
    · split
      · exact hkey g
      · rfl
  · intro m g hg
    obtain ⟨g', hg', rfl⟩ := hget m g hg
    have hk : (if n = m then f g' else g').key = g'.key := by
      split
      · exact hkey g'
      · rfl
    rw [hk]
    rcases h.kept m g' hg' with hl | ⟨t, ht, hle⟩
    · exact .inl hl
    · refine .inr ⟨t, ?_, show c.ttl ≤ clock - t by omega⟩
      split
      · exact hfinished g' t ht
      · exact ht
  · intro m g hg
    obtain ⟨g', hg', rfl⟩ := hget m g hg
    split
    · exact hdecided g' (h.decided m g' hg')
    · exact h.decided m g' hg'

theorem Decided.finished {h : Held} (hd : Decided h) :
    h.first = none ↔ h.record.finished = none := by
  unfold Decided at hd
  split at hd
  · next hf => exact iff_of_true hf hd.1
  · next hf => exact iff_of_false (by simp [hf]) hd.1
  · next hf => exact iff_of_false (by simp [hf]) hd.1

theorem Decided.update {h : Held} (hd : Decided h) (f : Diagnostics → Diagnostics) :
    Decided { h with record := h.record.update f } := by
  by_cases hf : h.record.finished = none
  · have hfirst := hd.finished.mpr hf
    unfold Decided at hd ⊢
    simp only [hfirst] at hd ⊢
    simpa [Record.update, hf] using hd.2
  · rw [update_finished hf]
    exact hd

theorem Decided.finish {h : Held} (hd : Decided h) (now : ℕ) (error : Option TransportError) :
    Decided (h.finish now error) := by
  by_cases hf : h.record.finished = none
  · have hfirst := hd.finished.mpr hf
    cases error <;> simp [Held.finish, Decided, hfirst, Record.finish, Record.close, hf]
  · have hsome : h.first ≠ none := fun hn => hf (hd.finished.mp hn)
    obtain ⟨first, hfirst⟩ := Option.ne_none_iff_exists'.mp hsome
    have hsame : h.finish now error = h := by
      simp only [Held.finish, finish_finished hf]
      cases h
      simp_all
    rw [hsame]
    exact hd

/-- What the record shows once it is decided. -/
theorem Decided.status {h : Held} (hd : Decided h) {error : Option TransportError}
    (hf : h.first = some error) :
    (h.record.statusLocked.state = .failed ↔ error.isSome = true) ∧
      (∀ e, error = some e → h.record.statusLocked.error =
        some (e.withDiagnostics h.record.statusLocked.diagnostics)) ∧
      (error = none → h.record.statusLocked.state = .complete ∧
        h.record.statusLocked.diagnostics.phase = .complete) := by
  unfold Decided at hd
  cases error with
  | none =>
    simp only [hf] at hd
    obtain ⟨hfinished, herror, hphase⟩ := hd
    have hsome : h.record.finished.isSome = true := by
      simpa [Option.isSome_iff_ne_none] using hfinished
    simp [Record.statusLocked, herror, hsome, hphase]
  | some e =>
    simp only [hf] at hd
    simp [Record.statusLocked, hd.2]

theorem next_invariant {e : Event} (h : Invariant c w) (hn : next c w e = some v) :
    Invariant c v := by
  cases e with
  | register principal partition d started readings now =>
    simp only [next, Option.ite_none_right_eq_some, Option.some.injEq] at hn
    obtain ⟨ht, rfl⟩ := hn
    have hretained := retainRecent_invariant h ht
    obtain ⟨n, -, he⟩ | ⟨-, -, he⟩ | ⟨hkey, hroom, he⟩ :=
      register_cases c w principal partition d started readings now
    · rw [he]
      exact hretained
    · rw [he]
      exact hretained
    · rw [he]
      exact insert_invariant hretained hkey hroom _ rfl rfl
  | get key readings now =>
    simp only [next, Option.ite_none_right_eq_some, Option.some.injEq] at hn
    obtain ⟨ht, rfl⟩ := hn
    have hretained := retainRecent_invariant h ht
    simp only [get]
    split <;> exact hretained
  | cleanup readings now =>
    simp only [next, Option.ite_none_right_eq_some, Option.some.injEq] at hn
    obtain ⟨ht, rfl⟩ := hn
    exact retainRecent_invariant h ht
  | update n f =>
    cases hn
    refine modify_invariant h le_rfl (fun _ => rfl) ?_ ?_
    · intro g t ht
      simpa [update_finished (r := g.record) (by simp [ht])] using ht
    · intro g hg
      exact hg.update f
  | finish n now error =>
    simp only [next, Option.ite_none_right_eq_some, Option.some.injEq] at hn
    obtain ⟨hle, rfl⟩ := hn
    refine modify_invariant h hle (fun _ => rfl) ?_ ?_
    · intro g t ht
      simpa [Held.finish, finish_finished (r := g.record) (by simp [ht])] using ht
    · intro g hg
      exact hg.finish now error

structure Promises (c : Config) (w : World) : Prop where
  capacity : w.records.entries.length ≤ c.capacity
  never_evicted : ∀ (n : ℕ) h, w.heap[n]? = some h → h.record.finished = none →
    w.records.lookup h.key = some n
  exclusive : ∀ (n m : ℕ) g h, w.heap[n]? = some g → w.heap[m]? = some h → g.key = h.key →
    g.record.finished = none → h.record.finished = none → n = m
  duplicate : ∀ principal partition (d : Diagnostics) started readings now (n : ℕ) h,
    Timely w readings now → w.heap[n]? = some h →
    h.key = ⟨principal, partition, d.requestId⟩ → recent c.ttl h.record now = true →
    (register c w principal partition d started readings now).2 =
      .error (.fromCode .duplicateRequest)
  busy : ∀ principal partition (d : Diagnostics) started readings now, Timely w readings now →
    (register c w principal partition d started readings now).2 = .error (.fromCode .busy) →
    ∃ ns : List ℕ, ns.Nodup ∧ ns.length = c.capacity ∧
      ∀ n ∈ ns, ∃ h, w.heap[n]? = some h ∧ recent c.ttl h.record w.clock = true
  owner : ∀ key readings now n, (get c w key readings now).2 = .ok n →
    ∃ h, w.heap[n]? = some h ∧ h.key = key
  same : ∀ readings now (n : ℕ) h, Timely w readings now → w.heap[n]? = some h →
    recent c.ttl h.record now = true → (get c w h.key readings now).2 = .ok n
  decided : ∀ (n : ℕ) h, w.heap[n]? = some h →
    (h.first = none ↔ h.record.finished = none) ∧ ∀ error, h.first = some error →
    (h.record.statusLocked.state = .failed ↔ error.isSome = true) ∧
      (∀ e, error = some e → h.record.statusLocked.error =
        some (e.withDiagnostics h.record.statusLocked.diagnostics)) ∧
      (error = none → h.record.statusLocked.state = .complete ∧
        h.record.statusLocked.diagnostics.phase = .complete)

/-- A recent record is still in its place after the sweep of an operation. -/
theorem Invariant.retained (h : Invariant c w) (ht : Timely w readings now) {n : ℕ} {g : Held}
    (hg : w.heap[n]? = some g) (hr : recent c.ttl g.record now = true) :
    (retainRecent c w readings now).records.lookup g.key = some n := by
  rcases h.kept n g hg with hl | ⟨t, hf, hle⟩
  · refine lookup_retain.mpr ⟨hl, ?_⟩
    have hnow := (ht.2 g.key (lookup_mem_keys hl)).2
    simpa [World.keeps, hg] using recent_of_later hnow hr
  · have hnow := ht.1
    simp only [recent, hf, decide_eq_true_eq] at hr
    omega

theorem Invariant.unfinished (h : Invariant c w) {n : ℕ} {g : Held} (hg : w.heap[n]? = some g)
    (hf : g.record.finished = none) : w.records.lookup g.key = some n := by
  rcases h.kept n g hg with hl | ⟨t, ht, -⟩
  · exact hl
  · rw [hf] at ht
    cases ht

theorem Invariant.entries_nodup (h : Invariant c w) :
    (w.records.entries.map fun e => e.2).Nodup := by
  have hlookup : ∀ e ∈ w.records.entries, w.records.lookup e.1 = some e.2 :=
    fun e he => AList.mem_lookup_iff.mpr he
  apply List.Nodup.map_on
  · rintro ⟨k, n⟩ he ⟨l, m⟩ hf hnm
    obtain ⟨g, hg, rfl⟩ := h.listed k n (hlookup _ he)
    obtain ⟨g', hg', rfl⟩ := h.listed l m (hlookup _ hf)
    cases hnm
    cases hg.symm.trans hg'
    rfl
  · exact w.records.nodupKeys.nodup

/-- Every record that survives the sweep is unfinished or recent. -/
theorem Invariant.crowded (h : Invariant c w) (ht : Timely w readings now)
    (hfull : c.capacity ≤ (retainRecent c w readings now).records.entries.length) :
    ∃ ns : List ℕ, ns.Nodup ∧ ns.length = c.capacity ∧
      ∀ n ∈ ns, ∃ g, w.heap[n]? = some g ∧ recent c.ttl g.record w.clock = true := by
  have hretained := retainRecent_invariant h ht
  refine ⟨(retainRecent c w readings now).records.entries.map fun e => e.2,
    hretained.entries_nodup, ?_, ?_⟩
  · rw [List.length_map]
    exact le_antisymm hretained.capacity hfull
  · intro n hn
    obtain ⟨⟨k, m⟩, he, rfl⟩ := List.mem_map.mp hn
    have hk : (retainRecent c w readings now).records.lookup k = some m :=
      AList.mem_lookup_iff.mpr he
    obtain ⟨hl, hkeep⟩ := lookup_retain.mp hk
    obtain ⟨g, hg, rfl⟩ := h.listed k m hl
    refine ⟨g, hg, recent_of_later (ht.2 g.key (lookup_mem_keys hl)).1 ?_⟩
    simpa [World.keeps, hg] using hkeep

theorem Invariant.promises (h : Invariant c w) : Promises c w where
  capacity := h.capacity
  never_evicted := fun n g hg hf => h.unfinished hg hf
  exclusive := by
    intro n m g g' hg hg' hkey hf hf'
    have hn := h.unfinished hg hf
    rw [hkey, h.unfinished hg' hf'] at hn
    exact (Option.some.inj hn).symm
  duplicate := by
    intro principal partition d started readings now n g ht hg hkey hr
    have hl := h.retained ht hg hr
    rw [hkey] at hl
    obtain ⟨m, -, he⟩ | ⟨hnone, -⟩ | ⟨hnone, -⟩ :=
      register_cases c w principal partition d started readings now
    · rw [he]
    · cases hnone.symm.trans hl
    · cases hnone.symm.trans hl
  busy := by
    intro principal partition d started readings now ht hbusy
    have hfull : c.capacity ≤ (retainRecent c w readings now).records.entries.length := by
      obtain ⟨m, -, he⟩ | ⟨-, hfull, -⟩ | ⟨-, -, he⟩ :=
        register_cases c w principal partition d started readings now
      · rw [he] at hbusy
        cases hbusy
      · exact hfull
      · rw [he] at hbusy
        cases hbusy
    exact h.crowded ht hfull
  owner := by
    intro key readings now n hn
    simp only [get] at hn
    split at hn
    · next m hm =>
      cases hn
      exact h.listed key _ (lookup_retain.mp hm).1
    · cases hn
  same := by
    intro readings now n g ht hg hr
    simp only [get, h.retained ht hg hr]
  decided := by
    intro n g hg
    have hd := h.decided n g hg
    exact ⟨hd.finished, fun error hf => hd.status hf⟩

/-- In every state of every run of the registry. -/
theorem registry_promises (c : Config) (clock : ℕ) (es : List Event) {w : World}
    (h : (machine c clock).run (machine c clock).initial es = some w) : Promises c w := by
  have hinv : Invariant c w :=
    Machine.run_preserves (P := Invariant c) (fun _ _ _ hs hn => next_invariant hs hn)
      (.initial clock) h
  exact hinv.promises

def sampleDiagnostics (id : String) : Diagnostics where
  requestId := id
  attempt := 0
  traceId := "0123456789abcdef0123456789abcdef"
  spanId := "fedcba9876543210"
  phase := .queued
  delivery := .notStarted
  queueMs := 0
  headersMs := none
  bodyMs := none
  totalMs := 0
  requestBytes := 0
  responseBytes := 0
  tlsProfile := "chrome_120"
  clientReused := none
  contextId := none
  cookieRevision := none

def replayed : List Event :=
  [.register "principal" "a" (sampleDiagnostics "same-id") 0 (fun _ => 0) 0,
    .finish 0 5 none, .register "principal" "a" (sampleDiagnostics "same-id") 6 (fun _ => 6) 6,
    .register "principal" "a" (sampleDiagnostics "same-id") 15 (fun _ => 15) 15]

theorem registry_promises_replayed :
    ∃ w, (machine ⟨1, 10⟩ 0).run (machine ⟨1, 10⟩ 0).initial replayed = some w ∧
      w.heap.length = 2 ∧ Promises ⟨1, 10⟩ w := by
  refine ⟨_, rfl, rfl, ?_⟩
  exact registry_promises ⟨1, 10⟩ 0 replayed rfl

end RequestRegistry
