import Ja3Proxy.SyncBridgeSteps
import Mathlib.Data.List.Nodup

/-! The worker of the synchronous bridge gets one command at a time, and a call returns what the
worker computed for its own command. -/
namespace SyncBridgeInvariant

open SdkErrors SyncBridge SyncBridgeSteps

variable {α : Type} {s t : State α}

def load (s : State α) : ℕ :=
  s.toWorker.length + (if holds s.worker then 1 else 0) + s.toMain.length

structure Tokens (s : State α) : Prop where
  bound : s.workerFailed = false → load s ≤ 1
  quiet : s.workerFailed = false → s.main = .idle → s.closed = false → load s = 0
  ready : s.worker = .idle → s.busy = false
  failed : s.workerFailed = true → gone s.worker = true

theorem pending_idle {p : Pending} (h : s.main.pending = some p) : s.main ≠ .idle := by
  intro hidle
  rw [hidle] at h
  cases h

theorem contents_length (h : contents t = contents s) : t.toMain.length = s.toMain.length := by
  have := congrArg List.length h
  simpa [contents] using this

/-- A call that is answered leaves nothing behind. -/
theorem tokens_read (h : Tokens s) {q : Packet α} {rest : List (Packet α)}
    (hq : s.toMain = q :: rest) (hport : t.toMain = rest) (hqueue : t.toWorker = s.toWorker)
    (hfailed : t.workerFailed = s.workerFailed) (hworker : t.worker = s.worker)
    (hbusy : t.busy = s.busy) : Tokens t := by
  have hload : load t + 1 = load s := by
    rw [load, load, hworker, hqueue, hport, hq, List.length_cons]
    omega
  constructor
  · intro hf
    have := h.bound (hfailed ▸ hf)
    omega
  · intro hf _ _
    have := h.bound (hfailed ▸ hf)
    omega
  · rw [hworker, hbusy]
    exact h.ready
  · rw [hworker, hfailed]
    exact h.failed

theorem tokens_main (h : Tokens s) (hn : MainStep s t) : Tokens t := by
  cases hn with
  | moves m hp hm => exact ⟨h.bound, fun _ hidle => absurd hidle hm, h.ready, h.failed⟩
  | loses p e rest hp hq =>
    refine ⟨?_, fun _ _ hclosed => (by cases hclosed), h.ready, h.failed⟩
    intro hf
    have hle : load ({ s with toMain := rest }.lose p e) ≤ load s :=
      Nat.add_le_add_left hq.length_le _
    exact Nat.le_trans hle (h.bound hf)
  | returns p v m rest hp hq => exact tokens_read h hq rfl rfl rfl rfl rfl
  | raises p e m rest hp hq => exact tokens_read h hq rfl rfl rfl rfl rfl
  | posts op hidle hopen =>
    refine ⟨?_, fun _ hcontra => (by cases hcontra), h.ready, h.failed⟩
    intro hf
    have := h.quiet hf hidle hopen
    simp only [load, List.length_append, List.length_singleton] at this ⊢
    omega
  | clones op e hidle hopen =>
    exact ⟨h.bound, fun _ _ hclosed => (by cases hclosed), h.ready, h.failed⟩
  | refuses e hidle => exact ⟨h.bound, fun hf _ hc => h.quiet hf hidle hc, h.ready, h.failed⟩
  | hears exited hidle hdead =>
    exact ⟨h.bound, fun hf _ hc => h.quiet hf hidle hc, h.ready, h.failed⟩

theorem Tokens.of_load (h : Tokens s) (hfailed : t.workerFailed = s.workerFailed)
    (hload : s.workerFailed = false → load t ≤ load s) (hmain : t.main = .idle → s.main = .idle)
    (hclosed : t.closed = s.closed) (hready : t.worker = .idle → t.busy = false)
    (hgone : gone s.worker = true → gone t.worker = true) : Tokens t := by
  constructor
  · intro hf
    rw [hfailed] at hf
    exact Nat.le_trans (hload hf) (h.bound hf)
  · intro hf hidle hopen
    rw [hfailed] at hf
    rw [hclosed] at hopen
    have hzero := h.quiet hf (hmain hidle) hopen
    have hle := hload hf
    omega
  · exact hready
  · intro hf
    rw [hfailed] at hf
    exact hgone (h.failed hf)

/-- A worker that has failed has no more commands to get. -/
theorem Tokens.of_failed (hfailed : t.workerFailed = true) (hgone : gone t.worker = true) :
    Tokens t := by
  constructor
  · intro hf
    simp [hfailed] at hf
  · intro hf
    simp [hfailed] at hf
  · intro hidle
    simp [hidle, gone] at hgone
  · exact fun _ => hgone

theorem tokens_worker (h : Tokens s) (hn : WorkerStep s t) : Tokens t := by
  cases hn with
  | starts v hw =>
    refine h.of_load rfl (fun _ => ?_) id rfl (by simp) (by simp [hw, gone])
    simp [load, hw, holds]
  | failsToStart e hw => exact .of_failed rfl rfl
  | takes c rest hgone hq =>
    refine h.of_load rfl (fun _ => ?_) id rfl (by simp) ?_
    · simp only [load, holds, hq, List.length_cons, if_true]
      omega
    · simp [hgone]
  | fails queue hq => exact .of_failed rfl rfl
  | completes c v after hw =>
    refine h.of_load rfl (fun _ => ?_) id rfl (by simp) (by simp [hw, gone])
    simp [load, hw, holds]
  | raises c e hw =>
    refine h.of_load rfl (fun _ => ?_) id rfl (by simp) (by simp [hw, gone])
    simp [load, hw, holds]
  | posts id r after hw =>
    refine h.of_load rfl (fun _ => ?_) (fun hm => hm) rfl (by simp) (by simp [hw, gone])
    simp only [load, hw, holds, List.length_append, List.length_singleton, if_true, if_false,
      Bool.false_eq_true]
    omega
  | stops id r hw =>
    refine h.of_load rfl (fun _ => ?_) (fun hm => hm) rfl (by simp) (by simp [gone])
    simp [load, hw, holds]
  | dies => exact .of_failed rfl rfl
  | controls hc =>
    refine h.of_load hc.workerFailed (fun _ => ?_) ?_ hc.closed hc.ready hc.gone
    · simp [load, hc.before, hc.after, hc.toWorker, contents_length hc.contents]
    · intro hidle
      rcases hc.main with hmain | hmain
      · exact hmain ▸ hidle
      · exact wake_idle (hmain ▸ hidle)

theorem tokens_step {e : Event α} (h : Tokens s) (hn : next s e = some t) : Tokens t := by
  rcases next_cases hn with hmain | hworker
  · exact tokens_main h (main_step hmain)
  · exact tokens_worker h (worker_step hworker)

/-- A worker with a command in hand has no other one in its port. -/
theorem busy_of_take {valid : Bool} (h : Tokens s) (hf : s.workerFailed = false)
    (hn : workerNext s (.take valid) = some t) : s.busy = false := by
  simp only [workerNext] at hn
  split at hn
  · rename_i c rest hworker hq
    exact h.ready hworker
  · rename_i d c rest hworker hq
    have hbound := h.bound hf
    simp only [load, hworker, holds, hq, List.length_cons, if_true] at hbound
    omega
  · cases hn

/-- What stands behind the end of a call: a value is the result of its command, and an error that
is neither a loss nor a refusal is for a command that the worker has got. -/
def Explained (s : State α) (x : ℕ × Outcome α) : Prop :=
  match x.2 with
  | .value v => (x.1, v) ∈ s.results
  | .lost _ => True
  | .failed _ | .refused _ => x.1 ≤ s.activeId

/-- Commands are numbered in the order of the calls, and the worker has come to `activeId`: what
it has computed and replied is for commands up to there, what is still queued is for later ones. -/
structure Answered (s : State α) : Prop where
  active : s.activeId ≤ s.sequence
  queue : ∀ c ∈ s.toWorker, s.activeId < c.id ∧ c.id ≤ s.sequence
  sorted : s.toWorker.Pairwise (fun c d => c.id < d.id)
  port : ∀ x ∈ contents s, x.1 ≤ s.activeId ∧ ∀ v, x.2 = .ok v → (x.1, v) ∈ s.results
  reply : ∀ id r after, s.worker = .replying id r after →
    id ≤ s.activeId ∧ ∀ v, r = .ok v → (id, v) ∈ s.results
  running : ∀ c, s.worker = .running c → c.id = s.activeId ∧ ∀ x ∈ s.results, x.1 < c.id
  starting : s.worker = .starting → s.results = []
  results : ∀ x ∈ s.results, x.1 ≤ s.activeId
  once : (s.results.map Prod.fst).Nodup
  log : ∀ x ∈ s.log, Explained s x

theorem Explained.mono {x : ℕ × Outcome α} (h : Explained s x)
    (hresults : ∀ y ∈ s.results, y ∈ t.results) (hactive : s.activeId ≤ t.activeId) :
    Explained t x := by
  obtain ⟨id, o⟩ := x
  cases o with
  | value v => exact hresults _ h
  | lost e => trivial
  | failed e => exact Nat.le_trans h hactive
  | refused e => exact Nat.le_trans h hactive

/-- A call beyond the last command of the worker can only be lost. -/
theorem Answered.ended (h : Answered s) {id : ℕ} {o : Outcome α} (hx : (id, o) ∈ s.log)
    (hlt : s.activeId < id) : ∃ e, o = .lost e := by
  have hexplained := h.log _ hx
  cases o with
  | value v => exact absurd (h.results _ hexplained) (Nat.not_le.mpr hlt)
  | lost e => exact ⟨e, rfl⟩
  | failed e => exact absurd hexplained (Nat.not_le.mpr hlt)
  | refused e => exact absurd hexplained (Nat.not_le.mpr hlt)

/-- The main thread leaves the worker and its results alone. -/
theorem Answered.of_main (h : Answered s) (hactive : t.activeId = s.activeId)
    (hworker : t.worker = s.worker) (hresults : t.results = s.results)
    (hsequence : s.sequence ≤ t.sequence)
    (hqueue : ∀ c ∈ t.toWorker, s.activeId < c.id ∧ c.id ≤ t.sequence)
    (hsorted : t.toWorker.Pairwise (fun c d => c.id < d.id))
    (hport : ∀ x ∈ contents t, x ∈ contents s)
    (hlog : ∀ x ∈ t.log, x ∈ s.log ∨ Explained s x) : Answered t := by
  constructor
  · rw [hactive]
    exact Nat.le_trans h.active hsequence
  · rw [hactive]
    exact hqueue
  · exact hsorted
  · rw [hactive, hresults]
    exact fun x hx => h.port x (hport x hx)
  · rw [hactive, hresults, hworker]
    exact h.reply
  · rw [hactive, hresults, hworker]
    exact h.running
  · rw [hresults, hworker]
    exact h.starting
  · rw [hactive, hresults]
    exact h.results
  · rw [hresults]
    exact h.once
  · intro x hx
    have hexplained : Explained s x := (hlog x hx).elim (h.log x) id
    exact hexplained.mono (fun y hy => hresults ▸ hy) (Nat.le_of_eq hactive.symm)

theorem mem_finish {l : List (ℕ × Outcome α)} {id : ℕ} {o : Outcome α} {x : ℕ × Outcome α}
    (hx : x ∈ l ++ [(id, o)]) : x ∈ l ∨ x = (id, o) :=
  (List.mem_append.mp hx).imp (fun h => h) List.mem_singleton.mp

/-- The call ends with an outcome that its answer explains. -/
theorem Answered.finish (h : Answered s) {id : ℕ} {o : Outcome α} (ho : Explained s (id, o))
    (hactive : t.activeId = s.activeId) (hworker : t.worker = s.worker)
    (hresults : t.results = s.results) (hsequence : s.sequence ≤ t.sequence)
    (hqueue : t.toWorker = s.toWorker) (hport : t.toMain.Sublist s.toMain)
    (hlog : t.log = s.log ++ [(id, o)]) : Answered t := by
  refine h.of_main hactive hworker hresults hsequence ?_ (hqueue ▸ h.sorted) ?_ ?_
  · intro c hc
    rw [hqueue] at hc
    obtain ⟨hlow, hhigh⟩ := h.queue c hc
    exact ⟨hlow, Nat.le_trans hhigh hsequence⟩
  · intro x hx
    exact (hport.map _).subset hx
  · intro x hx
    rw [hlog] at hx
    rcases mem_finish hx with hold | rfl
    · exact .inl hold
    · exact .inr ho

theorem answered_main (h : Answered s) (hn : MainStep s t) : Answered t := by
  cases hn with
  | moves m hp hm => exact ⟨h.1, h.2, h.3, h.4, h.5, h.6, h.7, h.8, h.9, h.10⟩
  | loses p e rest hp hq =>
    have hlost : Explained s (p.id, .lost e) := trivial
    exact h.finish hlost rfl rfl rfl (Nat.le_refl _) rfl hq rfl
  | returns p v m rest hp hq =>
    have hsub : rest.Sublist s.toMain := hq ▸ List.sublist_cons_self _ _
    have hport := h.port (p.id, .ok v) (by simp [contents, hq])
    have hvalue : Explained s (p.id, .value v) := hport.2 v rfl
    exact h.finish hvalue rfl rfl rfl (Nat.le_refl _) rfl hsub rfl
  | raises p e m rest hp hq =>
    have hsub : rest.Sublist s.toMain := hq ▸ List.sublist_cons_self _ _
    have hport := h.port (p.id, .error e) (by simp [contents, hq])
    have hfailed : Explained s (p.id, .failed e) := hport.1
    exact h.finish hfailed rfl rfl rfl (Nat.le_refl _) rfl hsub rfl
  | posts op hidle hopen =>
    refine h.of_main rfl rfl rfl (Nat.le_succ _) ?_ ?_ (fun x hx => hx) (fun x hx => .inl hx)
    · intro c hc
      rcases List.mem_append.mp hc with hold | hnew
      · obtain ⟨hlow, hhigh⟩ := h.queue c hold
        exact ⟨hlow, Nat.le_succ_of_le hhigh⟩
      · rw [List.mem_singleton.mp hnew]
        exact ⟨Nat.lt_succ_of_le h.active, Nat.le_refl _⟩
    · refine List.pairwise_append.mpr ⟨h.sorted, List.pairwise_singleton _ _, ?_⟩
      intro c hc d hd
      rw [List.mem_singleton.mp hd]
      exact Nat.lt_succ_of_le (h.queue c hc).2
  | clones op e hidle hopen =>
    have hlost : Explained s (s.sequence + 1, .lost e) := trivial
    exact h.finish hlost rfl rfl rfl (Nat.le_succ _) rfl (List.Sublist.refl _) rfl
  | refuses e hidle =>
    have hrefused : Explained s (0, .refused e) := Nat.zero_le _
    exact h.finish hrefused rfl rfl rfl (Nat.le_refl _) rfl (List.Sublist.refl _) rfl
  | hears exited hidle hdead => exact ⟨h.1, h.2, h.3, h.4, h.5, h.6, h.7, h.8, h.9, h.10⟩

/-- The worker posts, stops or moves on with the results it has. -/
theorem Answered.of_worker (h : Answered s) (hactive : t.activeId = s.activeId)
    (hsequence : t.sequence = s.sequence) (hresults : t.results = s.results)
    (hqueue : t.toWorker.Sublist s.toWorker)
    (hport : ∀ x ∈ contents t, x ∈ contents s ∨
      x.1 ≤ s.activeId ∧ ∀ v, x.2 = .ok v → (x.1, v) ∈ s.results)
    (hreply : ∀ id r after, t.worker = .replying id r after →
      id ≤ s.activeId ∧ ∀ v, r = .ok v → (id, v) ∈ s.results)
    (hrunning : ∀ c, t.worker ≠ .running c) (hstarting : t.worker ≠ .starting)
    (hlog : t.log = s.log) : Answered t := by
  constructor
  · rw [hactive, hsequence]
    exact h.active
  · rw [hactive, hsequence]
    exact fun c hc => h.queue c (hqueue.subset hc)
  · exact h.sorted.sublist hqueue
  · rw [hactive, hresults]
    exact fun x hx => (hport x hx).elim (h.port x) id
  · rw [hactive, hresults]
    exact hreply
  · exact fun c hc => absurd hc (hrunning c)
  · exact fun hw => absurd hw hstarting
  · rw [hactive, hresults]
    exact h.results
  · rw [hresults]
    exact h.once
  · rw [hlog]
    intro x hx
    exact (h.log x hx).mono (fun y hy => hresults ▸ hy) (Nat.le_of_eq hactive.symm)

/-- An operation returns: its result is the first one for its command. -/
theorem Answered.result (h : Answered s) {id : ℕ} {v : α} {after : After}
    (hid : id ≤ s.activeId) (hnew : ∀ x ∈ s.results, x.1 < id)
    (hactive : t.activeId = s.activeId) (hsequence : t.sequence = s.sequence)
    (hresults : t.results = s.results ++ [(id, v)]) (hqueue : t.toWorker = s.toWorker)
    (hport : t.toMain = s.toMain) (hworker : t.worker = .replying id (.ok v) after)
    (hlog : t.log = s.log) : Answered t := by
  have hkept : ∀ x ∈ s.results, x ∈ t.results := by
    intro x hx
    rw [hresults]
    exact List.mem_append_left _ hx
  have hlast : (id, v) ∈ t.results := by simp [hresults]
  constructor
  · rw [hactive, hsequence]
    exact h.active
  · rw [hactive, hsequence, hqueue]
    exact h.queue
  · rw [hqueue]
    exact h.sorted
  · rw [contents, hport, hactive]
    intro x hx
    obtain ⟨hle, hok⟩ := h.port x hx
    exact ⟨hle, fun w hw => hkept _ (hok w hw)⟩
  · rw [hworker, hactive]
    intro id' r after' heq
    cases heq
    refine ⟨hid, ?_⟩
    intro w hw
    cases hw
    exact hlast
  · rw [hworker]
    intro c hc
    cases hc
  · rw [hworker]
    intro hc
    cases hc
  · rw [hresults, hactive]
    intro x hx
    rcases List.mem_append.mp hx with hold | hone
    · exact h.results x hold
    · rw [List.mem_singleton.mp hone]
      exact hid
  · rw [hresults, List.map_append]
    refine List.nodup_append.mpr ⟨h.once, List.nodup_singleton _, ?_⟩
    intro a ha b hb
    obtain ⟨x, hx, rfl⟩ := List.mem_map.mp ha
    have hb : b = id := by simpa using hb
    rw [hb]
    exact Nat.ne_of_lt (hnew x hx)
  · rw [hlog]
    intro x hx
    exact (h.log x hx).mono hkept (Nat.le_of_eq hactive.symm)

/-- The next command has a number that no result has yet. -/
theorem Answered.take (h : Answered s) {c : Command} {rest : List Command}
    (hq : s.toWorker = c :: rest) (hactive : t.activeId = c.id)
    (hsequence : t.sequence = s.sequence) (hresults : t.results = s.results)
    (hqueue : t.toWorker = rest) (hport : t.toMain = s.toMain) (hworker : t.worker = .running c)
    (hlog : t.log = s.log) : Answered t := by
  have hsorted := h.sorted
  rw [hq, List.pairwise_cons] at hsorted
  obtain ⟨hlow, hhigh⟩ := h.queue c (by simp [hq])
  constructor
  · rw [hactive, hsequence]
    exact hhigh
  · rw [hactive, hsequence, hqueue]
    intro d hd
    exact ⟨hsorted.1 d hd, (h.queue d (by simp [hq, hd])).2⟩
  · rw [hqueue]
    exact hsorted.2
  · rw [contents, hport, hactive, hresults]
    intro x hx
    obtain ⟨hle, hok⟩ := h.port x hx
    exact ⟨Nat.le_trans hle (Nat.le_of_lt hlow), hok⟩
  · rw [hworker]
    intro id r after heq
    cases heq
  · rw [hworker, hactive, hresults]
    intro d hd
    cases hd
    exact ⟨rfl, fun x hx => Nat.lt_of_le_of_lt (h.results x hx) hlow⟩
  · rw [hworker]
    intro hc
    cases hc
  · rw [hresults, hactive]
    exact fun x hx => Nat.le_trans (h.results x hx) (Nat.le_of_lt hlow)
  · rw [hresults]
    exact h.once
  · rw [hlog]
    intro x hx
    exact (h.log x hx).mono (fun y hy => hresults ▸ hy) (hactive ▸ Nat.le_of_lt hlow)

theorem answered_worker (h : Answered s) (hn : WorkerStep s t) : Answered t := by
  cases hn with
  | starts v hw =>
    refine h.result (Nat.zero_le _) ?_ rfl rfl rfl rfl rfl rfl rfl
    simp [h.starting hw]
  | failsToStart e hw =>
    refine h.of_worker rfl rfl rfl (List.Sublist.refl _) (fun x hx => .inl hx) ?_ (by simp)
      (by simp) rfl
    intro id r after heq
    cases heq
    exact ⟨Nat.zero_le _, fun v hv => (by cases hv)⟩
  | takes c rest hgone hq => exact h.take hq rfl rfl rfl rfl rfl rfl rfl
  | fails queue hq =>
    refine h.of_worker rfl rfl rfl hq (fun x hx => .inl hx) ?_ (by simp [State.fatal])
      (by simp [State.fatal]) rfl
    intro id r after heq
    cases heq
    exact ⟨Nat.le_refl _, fun v hv => (by cases hv)⟩
  | completes c v after hw =>
    obtain ⟨hid, hnew⟩ := h.running c hw
    exact h.result (Nat.le_of_eq hid) hnew rfl rfl rfl rfl rfl rfl rfl
  | raises c e hw =>
    refine h.of_worker rfl rfl rfl (List.Sublist.refl _) (fun x hx => .inl hx) ?_ (by simp)
      (by simp) rfl
    intro id r after heq
    cases heq
    exact ⟨Nat.le_of_eq (h.running c hw).1, fun v hv => (by cases hv)⟩
  | posts id r after hw =>
    refine h.of_worker rfl rfl rfl (List.Sublist.refl _) ?_ (by simp) (by simp) (by simp) rfl
    intro x hx
    rw [contents, List.map_append] at hx
    rcases List.mem_append.mp hx with hold | hnew
    · exact .inl hold
    · rw [List.mem_singleton.mp hnew]
      exact .inr (h.reply id r after hw)
  | stops id r hw =>
    exact h.of_worker rfl rfl rfl (List.Sublist.refl _) (fun x hx => .inl hx) (by simp) (by simp)
      (by simp) rfl
  | dies =>
    exact h.of_worker rfl rfl rfl (List.Sublist.refl _) (fun x hx => .inl hx) (by simp) (by simp)
      (by simp) rfl
  | controls hc =>
    have hfree : ∀ w : Worker α, holds w = true → t.worker ≠ w := by
      rintro w hw rfl
      simp [hc.after] at hw
    refine h.of_worker hc.activeId hc.sequence hc.results ?_ ?_ ?_ ?_ (hfree _ rfl) hc.log
    · rw [hc.toWorker]
    · rw [hc.contents]
      exact fun x hx => .inl hx
    · exact fun id r after heq => absurd heq (hfree _ rfl)
    · exact fun c => hfree _ rfl

theorem answered_step {e : Event α} (h : Answered s) (hn : next s e = some t) : Answered t := by
  rcases next_cases hn with hmain | hworker
  · exact answered_main h (main_step hmain)
  · exact answered_worker h (worker_step hworker)

end SyncBridgeInvariant
