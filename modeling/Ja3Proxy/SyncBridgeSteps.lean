import Ja3Proxy.SyncBridge

/-! What a step of either thread of the synchronous bridge can change. -/
namespace SyncBridgeSteps

open SdkErrors SyncBridge

variable {α : Type} {s t : State α}

theorem next_cases {e : Event α} (hn : next s e = some t) :
    mainNext s e = some t ∨ workerNext s e = some t := by
  rw [next, Option.or_eq_some_iff] at hn
  exact hn.imp id And.right

theorem accept_main (s : State α) (p : Pending) (q : Packet α) : (s.accept p q).main = .idle := by
  simp only [State.accept]
  split
  · split
    · rfl
    · split <;> rfl
  · rfl

/-- A `notify` changes nothing but the main thread. -/
theorem wake_eq (s : State α) : s.wake = { s with main := s.wake.main } := by
  rw [State.wake]
  split <;> rfl

theorem wake_mark (s : State α) (before after : Mark) :
    (s.mark before after).wake.main = s.wake.main := by
  simp only [State.wake, State.mark]
  split <;> rfl

theorem wake_idle (h : s.wake.main = .idle) : s.main = .idle := by
  rw [State.wake] at h
  split at h
  · cases h
  · exact h

def holds : Worker α → Bool
  | .starting | .running _ | .replying _ _ _ => true
  | _ => false

def gone : Worker α → Bool
  | .replying _ _ after | .posted after | .added after => after != .ready
  | .storing | .raising | .notifying | .closing | .stopped | .dead => true
  | _ => false

def contents (s : State α) : List (ℕ × Except SdkError α) := s.toMain.map fun q => (q.id, q.reply)

structure Same (s t : State α) : Prop where
  closed : t.closed = s.closed
  sequence : t.sequence = s.sequence
  activeId : t.activeId = s.activeId
  workerFailed : t.workerFailed = s.workerFailed
  toWorker : t.toWorker = s.toWorker
  contents : contents t = contents s
  posted : t.posted = s.posted
  results : t.results = s.results
  log : t.log = s.log

def control : Event α → Bool
  | .add | .notify | .clear | .stop | .stray _ => true
  | _ => false

structure Controlled (s t : State α) : Prop extends Same s t where
  before : holds s.worker = false
  after : holds t.worker = false
  gone : gone s.worker = true → gone t.worker = true
  ready : t.worker = .idle → t.busy = false
  main : t.main = s.main ∨ t.main = s.wake.main
  adds : s.adds ≤ t.adds

theorem contents_mark (s : State α) (before after : Mark) :
    contents (s.mark before after) = contents s := by
  simp only [contents, State.mark, List.map_map]
  apply List.map_congr_left
  intro q _
  simp only [Function.comp_apply]
  split <;> rfl

theorem Same.aside (s : State α) {main : Main} {worker : Worker α} {busy : Bool} {adds flag : ℕ} :
    Same s { s with main := main, worker := worker, busy := busy, adds := adds, flag := flag } :=
  ⟨rfl, rfl, rfl, rfl, rfl, rfl, rfl, rfl, rfl⟩

theorem Same.marked (s : State α) (before after : Mark) {main : Main} {worker : Worker α}
    {adds : ℕ} :
    Same s { s.mark before after with main := main, worker := worker, adds := adds } :=
  ⟨rfl, rfl, rfl, rfl, rfl, contents_mark s before after, rfl, rfl, rfl⟩

theorem control_spec {e : Event α} (he : control e = true) (hn : workerNext s e = some t) :
    Controlled s t := by
  cases e with
  | add =>
    simp only [workerNext] at hn
    split at hn
    · rename_i after hworker
      cases hn
      exact ⟨.marked s _ _, by rw [hworker]; rfl, rfl,
        by simp [hworker, gone], by simp, .inl rfl, Nat.le_succ _⟩
    · rename_i hworker
      cases hn
      exact ⟨.aside s, by rw [hworker]; rfl, rfl,
        by simp [gone], by simp, .inl rfl, Nat.le_succ _⟩
    · cases hn
  | notify =>
    simp only [workerNext] at hn
    split at hn
    · rename_i hworker
      cases hn
      rw [wake_eq]
      exact ⟨.marked s _ _, by rw [hworker]; rfl, rfl,
        by simp [hworker, gone], by simp, .inr (wake_mark s _ _), Nat.le_refl _⟩
    · rename_i after _ hworker
      cases hn
      rw [wake_eq]
      exact ⟨.marked s _ _, by rw [hworker]; rfl, rfl,
        by simp [gone], by simp, .inr (wake_mark s _ _), Nat.le_refl _⟩
    · rename_i hworker
      cases hn
      rw [wake_eq]
      exact ⟨.aside s, by rw [hworker]; rfl, rfl,
        by simp [gone], by simp, .inr rfl, Nat.le_refl _⟩
    · cases hn
  | clear =>
    simp only [workerNext] at hn
    split at hn
    · rename_i hworker
      cases hn
      exact ⟨.aside s, by rw [hworker]; rfl, rfl,
        by simp [hworker, gone], fun _ => rfl, .inl rfl, Nat.le_refl _⟩
    · cases hn
  | stop =>
    simp only [workerNext] at hn
    split at hn
    · rename_i hworker
      cases hn
      exact ⟨.aside s, by rw [hworker]; rfl, rfl,
        by simp [gone], by simp, .inl rfl, Nat.le_refl _⟩
    · rename_i hworker
      cases hn
      exact ⟨.aside s, by rw [hworker]; rfl, rfl,
        by simp [gone], by simp, .inl rfl, Nat.le_refl _⟩
    · cases hn
  | stray notify =>
    simp only [workerNext] at hn
    split at hn
    · rename_i hworker
      cases hn
      split
      · rw [wake_eq]
        exact ⟨.aside s, by rw [hworker]; rfl,
          by rw [hworker]; rfl, id, by simp [hworker], .inr rfl, Nat.le_refl _⟩
      · exact ⟨.aside s, by rw [hworker]; rfl,
          by rw [hworker]; rfl, id, by simp [hworker], .inl rfl, Nat.le_succ _⟩
    · cases hn
  | _ => cases he

inductive MainStep (s : State α) : State α → Prop where
  | moves (m : Main) (h : m.pending = s.main.pending) (hm : m ≠ .idle) :
    MainStep s { s with main := m }
  | loses (p : Pending) (e : SdkError) (rest : List (Packet α)) (h : s.main.pending = some p)
    (hq : rest.Sublist s.toMain) : MainStep s ({ s with toMain := rest }.lose p e)
  | returns (p : Pending) (v : α) (m : Mark) (rest : List (Packet α))
    (h : s.main.pending = some p) (hq : s.toMain = ⟨p.id, .ok v, m⟩ :: rest) : MainStep s
    ({ s with toMain := rest, closed := s.closed || p.op == Op.close }.finish p.id (.value v))
  | raises (p : Pending) (e : SdkError) (m : Mark) (rest : List (Packet α))
    (h : s.main.pending = some p) (hq : s.toMain = ⟨p.id, .error e, m⟩ :: rest) : MainStep s
    ({ s with toMain := rest, closed := s.closed || !p.dispatched }.finish p.id (.failed e))
  | posts (op : Op) (h : s.main = .idle) (hc : s.closed = false) : MainStep s
    { s with
      closing := s.closing || op == Op.close
      sequence := s.sequence + 1
      toWorker := s.toWorker ++ [⟨s.sequence + 1, op⟩]
      posted := s.posted + 1
      main := .loading ⟨s.sequence + 1, true, op⟩ }
  | clones (op : Op) (e : SdkError) (h : s.main = .idle) (hc : s.closed = false) : MainStep s
    ({ s with closing := s.closing || op == Op.close, sequence := s.sequence + 1 }.lose
      ⟨s.sequence + 1, true, op⟩ e)
  | refuses (e : SdkError) (h : s.main = .idle) : MainStep s (s.finish 0 (.refused e))
  | hears (exited : Bool) (h : s.main = .idle) (hd : s.worker = .dead) :
    MainStep s (s.workerGone exited)

theorem accept_step {p : Pending} {q : Packet α} {rest : List (Packet α)}
    (h : s.main.pending = some p) (hq : s.toMain = q :: rest) :
    MainStep s ({ s with toMain := rest }.accept p q) := by
  obtain ⟨id, reply, m⟩ := q
  have hsub : rest.Sublist s.toMain := by
    rw [hq]
    exact List.sublist_cons_self _ _
  simp only [State.accept]
  split
  · rename_i hid
    cases hid
    split
    · exact .returns p _ m rest h hq
    · split
      · exact .loses p _ rest h hsub
      · exact .raises p _ m rest h hq
  · exact .loses p _ rest h hsub

theorem main_step {e : Event α} (hn : mainNext s e = some t) : MainStep s t := by
  cases e with
  | call op cloned =>
    simp only [mainNext] at hn
    split at hn
    · rename_i hidle
      cases hn
      simp only [State.call]
      split
      · exact .refuses _ hidle
      · rename_i hopen
        have hopen : s.closed = false := by simpa using hopen
        split
        · exact .refuses _ hidle
        · split
          · exact .posts op hidle hopen
          · exact .clones op _ hidle hopen
    · cases hn
  | load =>
    simp only [mainNext] at hn
    split at hn
    · rename_i p hmain
      cases hn
      exact .moves _ (by simp [hmain, Main.pending]) (by simp)
    · cases hn
  | receive =>
    simp only [mainNext] at hn
    split at hn
    · rename_i p g hmain
      cases hn
      simp only [State.receive]
      split
      · exact .moves _ (by simp [hmain, Main.pending]) (by simp)
      · rename_i q rest hport
        exact accept_step (by simp [hmain, Main.pending]) hport
    · cases hn
  | checkFailure =>
    simp only [mainNext] at hn
    split at hn
    · rename_i p g hmain
      cases hn
      simp only [State.checkFailure]
      split
      · exact .loses p _ s.toMain (by simp [hmain, Main.pending]) (List.Sublist.refl _)
      · exact .moves _ (by simp [hmain, Main.pending]) (by simp)
    · cases hn
  | checkDeadline expired =>
    simp only [mainNext] at hn
    split at hn
    · rename_i p g hmain
      cases hn
      simp only [State.checkDeadline]
      split
      · exact .loses p _ s.toMain (by simp [hmain, Main.pending]) (List.Sublist.refl _)
      · exact .moves _ (by simp [hmain, Main.pending]) (by simp)
    · cases hn
  | wait =>
    simp only [mainNext] at hn
    split at hn
    · rename_i p g hmain
      cases hn
      simp only [State.wait]
      split
      · exact .moves _ (by simp [hmain, Main.pending]) (by simp)
      · exact .moves _ (by simp [hmain, Main.pending]) (by simp)
    · cases hn
  | waitEnds =>
    simp only [mainNext] at hn
    split at hn
    · rename_i p hmain
      cases hn
      exact .moves _ (by simp [hmain, Main.pending]) (by simp)
    · cases hn
  | workerGone exited =>
    simp only [mainNext] at hn
    split at hn
    · rename_i hmain hdead
      cases hn
      exact .hears exited hmain hdead
    · cases hn
  | _ => cases hn

/-- What a step of the worker does. `fails` is `fatal`, whatever has led to it. -/
inductive WorkerStep (s : State α) : State α → Prop where
  | starts (v : α) (h : s.worker = .starting) : WorkerStep s
    { s with flag := 1, results := s.results ++ [(0, v)], worker := .replying 0 (.ok v) .ready }
  | failsToStart (e : SdkError) (h : s.worker = .starting) : WorkerStep s
    { s with workerFailed := true, worker := .replying 0 (.error e) .stop }
  | takes (c : Command) (rest : List Command) (h : gone s.worker = false)
    (hq : s.toWorker = c :: rest) : WorkerStep s
    { s with toWorker := rest, busy := true, activeId := c.id, worker := .running c }
  | fails (queue : List Command) (hq : queue.Sublist s.toWorker) :
    WorkerStep s { s with toWorker := queue }.fatal
  | completes (c : Command) (v : α) (after : After) (h : s.worker = .running c) : WorkerStep s
    { s with results := s.results ++ [(c.id, v)], worker := .replying c.id (.ok v) after }
  | raises (c : Command) (e : SdkError) (h : s.worker = .running c) : WorkerStep s
    { s with worker := .replying c.id (.error e) .ready }
  | posts (id : ℕ) (r : Except SdkError α) (after : After) (h : s.worker = .replying id r after) :
    WorkerStep s { s with toMain := s.toMain ++ [⟨id, r, .posted⟩], worker := .posted after }
  | stops (id : ℕ) (r : Except SdkError α) (h : s.worker = .replying id r .fatal) :
    WorkerStep s { s with worker := .storing }
  | dies : WorkerStep s { s with worker := .dead, workerFailed := true }
  | controls {t : State α} (h : Controlled s t) : WorkerStep s t

theorem take_step {c : Command} {rest : List Command} {valid : Bool}
    (h : gone s.worker = false) (hq : s.toWorker = c :: rest) :
    WorkerStep s ({ s with toWorker := rest }.take valid c) := by
  have hsub : rest.Sublist s.toWorker := by
    rw [hq]
    exact List.sublist_cons_self _ _
  simp only [State.take]
  split
  · exact .fails rest hsub
  · split
    · exact .takes c rest h hq
    · exact .fails rest hsub

theorem worker_step {e : Event α} (hn : workerNext s e = some t) : WorkerStep s t := by
  cases hc : control e with
  | true => exact .controls (control_spec hc hn)
  | false =>
    cases e with
    | start r =>
      simp only [workerNext] at hn
      split at hn
      · rename_i hworker
        cases hn
        cases r with
        | ok v => exact .starts v hworker
        | error e => exact .failsToStart e hworker
      · cases hn
    | take valid =>
      simp only [workerNext] at hn
      split at hn
      · rename_i c rest hworker hq
        cases hn
        exact take_step (by simp [hworker, gone]) hq
      · rename_i d c rest hworker hq
        cases hn
        exact take_step (by simp [hworker, gone]) hq
      · cases hn
    | complete r =>
      simp only [workerNext] at hn
      split at hn
      · rename_i c hworker
        cases hn
        cases r with
        | ok v => exact .completes c v _ hworker
        | error e => exact .raises c e hworker
      · cases hn
    | post cloned =>
      simp only [workerNext] at hn
      split at hn
      · rename_i id r after hworker
        cases hn
        simp only [State.post]
        split
        · exact .posts id r after hworker
        · split
          · rename_i hafter
            rw [hafter] at hworker
            exact .stops id r hworker
          · exact .fails s.toWorker (List.Sublist.refl _)
      · cases hn
    | fatal =>
      simp only [workerNext] at hn
      split at hn
      · cases hn
        exact .fails s.toWorker (List.Sublist.refl _)
      · cases hn
        exact .fails s.toWorker (List.Sublist.refl _)
      · cases hn
    | die =>
      cases hn
      exact .dies
    | add | notify | clear | stop | stray _ => cases hc
    | _ => cases hn

end SyncBridgeSteps
