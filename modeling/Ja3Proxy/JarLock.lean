import Ja3Proxy.ContextLifetime
import Ja3Proxy.FairMutex
import Ja3Proxy.TransitionRuns

/-! The jar of a managed context under `lock_jar`, `ManagedGuard` and `retire`.
Any number of tasks compete with one closer. A step is what runs between two accesses to
shared state; `ManagedGuard::drop` keeps the lifetime lock from its check to its end. -/
namespace JarLock

open ContextLifetime FairMutex TransitionRuns

variable {Cookie : Type}

inductive Agent where
  | task (n : ℕ)
  | closer
  deriving DecidableEq, Repr

/-- The two stores of `ManagedJar`. -/
structure Jar (Cookie : Type) where
  ordinary : List Cookie
  partitioned : List Cookie
  deriving DecidableEq, Repr

def Jar.empty : Jar Cookie := ⟨[], []⟩

/-- A task outside, inside `lock_jar`, or with a `ManagedGuard`. The flag says whether its
lock future has been polled and is known to the mutex. -/
inductive Pc where
  | idle
  | selecting (enrolled : Bool)
  | locking (enrolled : Bool)
  | parked
  | leaving (enrolled : Bool)
  | locked
  | touching (now : ℕ)
  | clearing
  | releasing
  | held
  | dropping
  | unlocked
  deriving DecidableEq, Repr

inductive Retire where
  | idle
  | cancelling
  | closingClient
  | trying
  | clearing
  | releasing
  | returned
  deriving DecidableEq, Repr

structure World (Cookie : Type) where
  mutex : Mutex Agent
  jar : Jar Cookie
  life : Lifetime
  /-- The task whose `ManagedGuard::drop` holds the lifetime lock. -/
  lifeLock : Option ℕ
  cancelled : Bool
  clock : ℕ
  pc : ℕ → Pc
  retire : Retire

inductive Event (Cookie : Type) where
  | call (n : ℕ)
  | checkCancel (n : ℕ)
  | pollLock (n : ℕ)
  | wake (n : ℕ)
  | abandon (n : ℕ)
  | leave (n : ℕ)
  | readClock (n : ℕ)
  | touch (n : ℕ)
  | clear (n : ℕ)
  | release (n : ℕ)
  | write (n : ℕ) (jar : Jar Cookie)
  | beginDrop (n : ℕ)
  | unlockJar (n : ℕ)
  | endDrop (n : ℕ)
  | retire
  | tick (elapsed : ℕ)

def World.initial (created : ℕ) : World Cookie where
  mutex := .free
  jar := .empty
  life := ⟨created, created, false⟩
  lifeLock := none
  cancelled := false
  clock := created
  pc := fun _ => .idle
  retire := .idle

def World.goto (w : World Cookie) (n : ℕ) (pc : Pc) : World Cookie :=
  { w with pc := Function.update w.pc n pc }

/-- A poll of the lock future: it may find the lock assigned, free, or taken. -/
def pollLock (w : World Cookie) (n : ℕ) (enrolled : Bool) : World Cookie :=
  if enrolled then
    if w.mutex.owner = some (.task n) then w.goto n .locked else w.goto n .parked
  else
    { w with mutex := w.mutex.request (.task n) }.goto n
      (if w.mutex.owner = none then .locked else .parked)

def stepTask (a : Ages) (w : World Cookie) : Event Cookie → Option (World Cookie)
  | .call n => if w.pc n = .idle then some (w.goto n (.selecting false)) else none
  | .checkCancel n =>
    match w.pc n with
    | .selecting enrolled =>
      some (w.goto n (if w.cancelled then .leaving enrolled else .locking enrolled))
    | _ => none
  | .pollLock n =>
    match w.pc n with
    | .locking enrolled => some (pollLock w n enrolled)
    | _ => none
  | .wake n => if w.pc n = .parked then some (w.goto n (.selecting true)) else none
  | .abandon n => if w.pc n = .parked then some (w.goto n (.leaving true)) else none
  | .leave n =>
    match w.pc n with
    | .leaving enrolled =>
      some ({ w with mutex := if enrolled then w.mutex.withdraw (.task n) else w.mutex }.goto
        n .idle)
    | _ => none
  | .readClock n => if w.pc n = .locked then some (w.goto n (.touching w.clock)) else none
  | .touch n =>
    match w.pc n with
    | .touching now =>
      if w.lifeLock = none then
        match w.life.touch a now with
        | some life => some ({ w with life := life }.goto n .held)
        | none => some (w.goto n .clearing)
      else none
    | _ => none
  | .clear n =>
    if w.pc n = .clearing then some ({ w with jar := .empty }.goto n .releasing) else none
  | .release n =>
    if w.pc n = .releasing then some ({ w with mutex := w.mutex.release }.goto n .idle) else none
  | .write n jar => if w.pc n = .held then some { w with jar := jar } else none
  | .beginDrop n =>
    if w.pc n = .held ∧ w.lifeLock = none then
      some ({ w with
        lifeLock := some n
        jar := if w.life.dead a w.clock then .empty else w.jar }.goto n .dropping)
    else none
  | .unlockJar n =>
    if w.pc n = .dropping then some ({ w with mutex := w.mutex.release }.goto n .unlocked)
    else none
  | .endDrop n =>
    if w.pc n = .unlocked then some ({ w with lifeLock := none }.goto n .idle) else none
  | _ => none

/-- The steps of `Context::retire`. -/
def stepRetire (w : World Cookie) : Option (World Cookie) :=
  match w.retire with
  | .idle =>
    if w.lifeLock = none then
      some { w with life := { w.life with closed := true }, retire := .cancelling }
    else none
  | .cancelling => some { w with cancelled := true, retire := .closingClient }
  | .closingClient => some { w with retire := .trying }
  | .trying =>
    match w.mutex.tryLock .closer with
    | some mutex => some { w with mutex := mutex, retire := .clearing }
    | none => some { w with retire := .returned }
  | .clearing => some { w with jar := .empty, retire := .releasing }
  | .releasing => some { w with mutex := w.mutex.release, retire := .returned }
  | .returned => none

def next (a : Ages) (w : World Cookie) : Event Cookie → Option (World Cookie)
  | .retire => stepRetire w
  | .tick elapsed => some { w with clock := w.clock + elapsed }
  | e => stepTask a w e

def machine (a : Ages) (created : ℕ) : Machine (World Cookie) (Event Cookie) :=
  ⟨.initial created, next a⟩

/-- `retire` has returned, no guard exists and no `lock_jar` call is pending. -/
def Quiescent (w : World Cookie) : Prop := w.retire = .returned ∧ ∀ n, w.pc n = .idle

/-- The last lock future that was assigned the mutex is dropped after `retire` gave up on
it, with cookies still in the jar. -/
structure LeakStep (w : World Cookie) (n : ℕ) : Prop where
  leaving : w.pc n = .leaving true
  assigned : w.mutex.owner = some (.task n)
  last : w.mutex.queue = []
  late : w.retire = .returned
  dirty : w.jar ≠ .empty

def Pc.enrolled : Pc → Bool
  | .selecting enrolled | .locking enrolled | .leaving enrolled => enrolled
  | .parked => true
  | _ => false

def Pc.holds : Pc → Bool
  | .locked | .touching _ | .clearing | .releasing | .held | .dropping => true
  | _ => false

def Retire.holds : Retire → Bool
  | .clearing | .releasing => true
  | _ => false

structure TaskOk (w : World Cookie) (n : ℕ) (p : Pc) : Prop where
  holder : p.holds = true → w.mutex.owner = some (.task n)
  involved : w.mutex.Involves (.task n) → p.holds = true ∨ p.enrolled = true
  lifeLock : p = .dropping ∨ p = .unlocked → w.lifeLock = some n
  cleared : p = .releasing → w.jar = .empty
  checked : p = .dropping → w.life.closed = true → w.jar = .empty

structure Shared (w : World Cookie) : Prop where
  proper : w.mutex.Proper
  closer : w.retire.holds = true ↔ w.mutex.Involves .closer
  closerOwns : w.retire.holds = true → w.mutex.owner = some .closer
  closed : w.retire ≠ .idle → w.life.closed = true
  cleared : w.retire = .releasing → w.jar = .empty
  guarded : w.retire = .returned → w.jar ≠ .empty → w.mutex.owner ≠ none

structure Invariant (w : World Cookie) : Prop where
  task : ∀ n, TaskOk w n (w.pc n)
  shared : Shared w

theorem taskOk_goto {w : World Cookie} {n m : ℕ} {p q : Pc} (h : TaskOk w m p) :
    TaskOk (w.goto n q) m p :=
  ⟨h.holder, h.involved, h.lifeLock, h.cleared, h.checked⟩

theorem shared_goto {w : World Cookie} {n : ℕ} {q : Pc} (h : Shared w) : Shared (w.goto n q) :=
  ⟨h.proper, h.closer, h.closerOwns, h.closed, h.cleared, h.guarded⟩

/-- A step of task `n` keeps the invariant if it keeps what the others and the closer rely
on and gives `n` what it relies on at its new place. -/
theorem invariant_goto {w v : World Cookie} {n : ℕ} {q : Pc} (h : Invariant w)
    (hpc : v.pc = w.pc) (hothers : ∀ m p, m ≠ n → TaskOk w m p → TaskOk v m p)
    (hn : TaskOk v n q) (hs : Shared v) : Invariant (v.goto n q) := by
  refine ⟨?_, shared_goto hs⟩
  intro m
  by_cases hm : m = n
  · have hq : (v.goto n q).pc m = q := by simp [World.goto, hm]
    rw [hq, hm]
    exact taskOk_goto hn
  · have hsame : (v.goto n q).pc m = w.pc m := by simp [World.goto, hm, hpc]
    rw [hsame]
    exact taskOk_goto (hothers m (w.pc m) hm (h.task m))

/-- A step of task `n` that touches nothing shared. -/
theorem invariant_move {w : World Cookie} {n : ℕ} {q : Pc} (h : Invariant w)
    (hn : TaskOk w n q) : Invariant (w.goto n q) :=
  invariant_goto h rfl (fun _ _ _ ht => ht) hn h.shared

/-- Moving between two places of the same kind. -/
theorem invariant_same {w : World Cookie} {n : ℕ} {p q : Pc} (h : Invariant w)
    (hpc : w.pc n = p) (hholds : q.holds = p.holds) (henrolled : q.enrolled = p.enrolled)
    (hq : q ≠ .dropping ∧ q ≠ .unlocked ∧ q ≠ .releasing) : Invariant (w.goto n q) := by
  have hn := h.task n
  rw [hpc] at hn
  refine invariant_move h ⟨?_, ?_, by simp [hq], by simp [hq], by simp [hq]⟩
  · rw [hholds]; exact hn.holder
  · rw [hholds, henrolled]; exact hn.involved

theorem Invariant.not_involved {w : World Cookie} (h : Invariant w) {n : ℕ}
    (hholds : (w.pc n).holds = false) (henrolled : (w.pc n).enrolled = false) :
    ¬ w.mutex.Involves (.task n) := by
  intro hin
  rcases (h.task n).involved hin with hc | hc
  · rw [hholds] at hc
    cases hc
  · rw [henrolled] at hc
    cases hc

/-- Only the owner is at a place that holds the mutex. -/
theorem Invariant.owner {w : World Cookie} (h : Invariant w) {n : ℕ}
    (hn : (w.pc n).holds = true) :
    w.mutex.owner = some (.task n) ∧
    (∀ m p, m ≠ n → TaskOk w m p → p.holds = false) ∧ w.retire.holds = false := by
  have how := (h.task n).holder hn
  refine ⟨how, ?_, ?_⟩
  · intro m p hm ht
    by_contra hp
    rw [ht.holder (by simpa using hp)] at how
    simp [hm] at how
  · by_contra hr
    rw [h.shared.closerOwns (by simpa using hr)] at how
    cases how

/-- A change of the jar by the owner concerns nobody else. -/
theorem taskOk_jar {w : World Cookie} {jar : Jar Cookie} {m : ℕ} {p : Pc} (h : TaskOk w m p)
    (hp : p.holds = false) : TaskOk { w with jar := jar } m p where
  holder := h.holder
  involved := h.involved
  lifeLock := h.lifeLock
  cleared := by rintro rfl; cases hp
  checked := by rintro rfl; cases hp

theorem shared_jar {w : World Cookie} {jar : Jar Cookie} (h : Shared w)
    (hr : w.retire.holds = false) (how : w.mutex.owner ≠ none) : Shared { w with jar := jar } where
  proper := h.proper
  closer := h.closer
  closerOwns := h.closerOwns
  closed := h.closed
  cleared := by
    intro hrel
    have hrel : w.retire = .releasing := hrel
    rw [hrel] at hr
    cases hr
  guarded := fun _ _ => how

/-- The owner releases the mutex: the others keep what they rely on. -/
theorem taskOk_release {w : World Cookie} {n m : ℕ} {p : Pc} (hproper : w.mutex.Proper)
    (how : w.mutex.owner = some (.task n)) (hm : m ≠ n) (h : TaskOk w m p) :
    TaskOk { w with mutex := w.mutex.release } m p where
  holder := by
    intro hp
    rw [h.holder hp] at how
    simp [hm] at how
  involved := fun hin => h.involved (Mutex.involves_release hproper how hin).1
  lifeLock := h.lifeLock
  cleared := h.cleared
  checked := h.checked

theorem taskOk_gone {w : World Cookie} {n : ℕ} {q : Pc} (hnot : ¬ w.mutex.Involves (.task n))
    (hholds : q.holds = false) (hlife : q = .unlocked → w.lifeLock = some n) :
    TaskOk w n q where
  holder := by simp [hholds]
  involved := fun hin => absurd hin hnot
  lifeLock := by
    rintro (rfl | hq)
    · cases hholds
    · exact hlife hq
  cleared := by rintro rfl; cases hholds
  checked := by rintro rfl; cases hholds

theorem shared_release {w : World Cookie} {n : ℕ} (h : Shared w)
    (how : w.mutex.owner = some (.task n)) (hr : w.retire.holds = false)
    (hclean : w.retire = .returned → w.jar = .empty) :
    Shared { w with mutex := w.mutex.release } where
  proper := Mutex.proper_release h.proper
  closer := by
    constructor
    · intro hc
      rw [hr] at hc
      cases hc
    · intro hin
      exact h.closer.mpr (Mutex.involves_release h.proper how hin).1
  closerOwns := by
    intro hc
    rw [hr] at hc
    cases hc
  closed := h.closed
  cleared := h.cleared
  guarded := fun hret hdirty => absurd (hclean hret) hdirty

theorem invariant_pollLock {w : World Cookie} {n : ℕ} {enrolled : Bool} (h : Invariant w)
    (hn : w.pc n = .locking enrolled) : Invariant (pollLock w n enrolled) := by
  unfold pollLock
  cases enrolled with
  | true =>
    simp only [↓reduceIte]
    split
    · rename_i how
      exact invariant_move h ⟨fun _ => how, fun _ => Or.inl rfl, by simp, by simp, by simp⟩
    · exact invariant_same h hn rfl rfl (by simp)
  | false =>
    have hnot : ¬ w.mutex.Involves (.task n) :=
      h.not_involved (by rw [hn]; rfl) (by rw [hn]; rfl)
    have hbusy : (w.mutex.request (.task n)).owner ≠ none := by
      unfold Mutex.request
      split <;> simp_all
    simp only [Bool.false_eq_true, ↓reduceIte]
    refine invariant_goto h rfl ?_ ?_ ?_
    · intro m p hm ht
      refine ⟨fun hp => Mutex.owner_request (ht.holder hp), ?_, ht.lifeLock, ht.cleared, ht.checked⟩
      intro hin
      rcases Mutex.involves_request hin with hin | heq
      · exact ht.involved hin
      · exact absurd (by simpa using heq) hm
    · split
      · rename_i hfree
        exact ⟨fun _ => by simp [Mutex.request, hfree],
          fun _ => Or.inl rfl, by simp, by simp, by simp⟩
      · exact ⟨by simp [Pc.holds], fun _ => Or.inr rfl, by simp, by simp, by simp⟩
    · refine ⟨Mutex.proper_request h.shared.proper hnot, ?_, ?_, h.shared.closed,
        h.shared.cleared, fun _ _ => hbusy⟩
      · constructor
        · intro hr
          exact Or.inl (Mutex.owner_request (h.shared.closerOwns hr))
        · intro hin
          rcases Mutex.involves_request hin with hin | heq
          · exact h.shared.closer.mpr hin
          · cases heq
      · exact fun hr => Mutex.owner_request (h.shared.closerOwns hr)

theorem invariant_leave {w : World Cookie} {n : ℕ} (h : Invariant w)
    (hn : w.pc n = .leaving true) (hleak : ¬ LeakStep w n) :
    Invariant ({ w with mutex := w.mutex.withdraw (.task n) }.goto n .idle) := by
  have hproper := h.shared.proper
  refine invariant_goto h rfl ?_ ?_ ?_
  · intro m p hm ht
    refine ⟨?_, ?_, ht.lifeLock, ht.cleared, ht.checked⟩
    · intro hp
      exact Mutex.owner_withdraw (ht.holder hp) (by simpa using hm)
    · intro hin
      exact ht.involved (Mutex.involves_withdraw hproper hin).1
  · exact taskOk_gone (fun hin => (Mutex.involves_withdraw hproper hin).2 rfl) rfl (by simp)
  · refine ⟨Mutex.proper_withdraw hproper, ?_, ?_, h.shared.closed, h.shared.cleared, ?_⟩
    · constructor
      · intro hr
        exact Or.inl (Mutex.owner_withdraw (h.shared.closerOwns hr) (by simp))
      · intro hin
        exact h.shared.closer.mpr (Mutex.involves_withdraw hproper hin).1
    · exact fun hr => Mutex.owner_withdraw (h.shared.closerOwns hr) (by simp)
    · intro hret hdirty
      have hbusy := h.shared.guarded hret hdirty
      by_cases how : w.mutex.owner = some (.task n)
      · -- The lock passes on: without a further waiter this would be the leak.
        have hmore : w.mutex.queue ≠ [] := fun hq => hleak ⟨hn, how, hq, hret, hdirty⟩
        simpa [Mutex.withdraw, how, Mutex.release] using hmore
      · simpa [Mutex.withdraw, how] using hbusy

theorem invariant_unlock {w : World Cookie} {n : ℕ} {q : Pc} (h : Invariant w)
    (hn : (w.pc n).holds = true) (hq : q.holds = false)
    (hlife : q = .unlocked → w.lifeLock = some n)
    (hclean : w.retire = .returned → w.jar = .empty) :
    Invariant ({ w with mutex := w.mutex.release }.goto n q) := by
  obtain ⟨how, _, hr⟩ := h.owner hn
  refine invariant_goto h rfl ?_ ?_ (shared_release h.shared how hr hclean)
  · intro m p hm ht
    exact taskOk_release h.shared.proper how hm ht
  · exact taskOk_gone (fun hin => (Mutex.involves_release h.shared.proper how hin).2 rfl) hq hlife

theorem invariant_touch {a : Ages} {w : World Cookie} {n now : ℕ} {life : Lifetime}
    (h : Invariant w) (hn : w.pc n = .touching now) (ht : w.life.touch a now = some life) :
    Invariant ({ w with life := life }.goto n .held) := by
  have hclosed : life.closed = w.life.closed := by
    unfold Lifetime.touch at ht
    split at ht
    · cases ht
    · obtain rfl := Option.some.inj ht
      rfl
  have hpc := h.task n
  rw [hn] at hpc
  refine invariant_goto h rfl ?_ ?_ ?_
  · intro m p _ hm
    exact ⟨hm.holder, hm.involved, hm.lifeLock, hm.cleared, by simpa [hclosed] using hm.checked⟩
  · exact ⟨hpc.holder, fun _ => Or.inl rfl, by simp, by simp, by simp⟩
  · exact ⟨h.shared.proper, h.shared.closer, h.shared.closerOwns,
      by simpa [hclosed] using h.shared.closed, h.shared.cleared, h.shared.guarded⟩

theorem invariant_beginDrop {a : Ages} {w : World Cookie} {n : ℕ} (h : Invariant w)
    (hn : w.pc n = .held) (hfree : w.lifeLock = none) :
    Invariant ({ w with
      lifeLock := some n
      jar := if w.life.dead a w.clock then .empty else w.jar }.goto n .dropping) := by
  obtain ⟨how, hothers, hr⟩ := h.owner (n := n) (by rw [hn]; rfl)
  refine invariant_goto h rfl ?_ ?_ ?_
  · intro m p hm ht
    have hp := hothers m p hm ht
    refine ⟨ht.holder, ht.involved, ?_, ?_, ?_⟩
    · intro hdrop
      rw [ht.lifeLock hdrop] at hfree
      cases hfree
    · rintro rfl
      cases hp
    · rintro rfl
      cases hp
  · refine ⟨fun _ => how, fun _ => Or.inl rfl, fun _ => rfl, by simp, ?_⟩
    intro _ hclosed
    have hdead : w.life.dead a w.clock = true := dead_of_closed hclosed
    simp [hdead]
  · have hjar : Shared { w with jar := if w.life.dead a w.clock then .empty else w.jar } :=
      shared_jar h.shared hr (by simp [how])
    exact ⟨hjar.proper, hjar.closer, hjar.closerOwns, hjar.closed, hjar.cleared, hjar.guarded⟩

theorem invariant_stepTask {a : Ages} {w v : World Cookie} {e : Event Cookie} (h : Invariant w)
    (hleak : ∀ n, e = .leave n → ¬ LeakStep w n) (hn : stepTask a w e = some v) :
    Invariant v := by
  cases e with
  | call n =>
    simp only [stepTask, Option.ite_none_right_eq_some, Option.some.injEq] at hn
    obtain ⟨hpc, rfl⟩ := hn
    exact invariant_same h hpc rfl rfl (by simp)
  | checkCancel n =>
    simp only [stepTask] at hn
    split at hn
    · rename_i enrolled hpc
      obtain rfl := Option.some.inj hn
      split
      · exact invariant_same h hpc rfl rfl (by simp)
      · exact invariant_same h hpc rfl rfl (by simp)
    · cases hn
  | pollLock n =>
    simp only [stepTask] at hn
    split at hn
    · rename_i enrolled hpc
      obtain rfl := Option.some.inj hn
      exact invariant_pollLock h hpc
    · cases hn
  | wake n =>
    simp only [stepTask, Option.ite_none_right_eq_some, Option.some.injEq] at hn
    obtain ⟨hpc, rfl⟩ := hn
    exact invariant_same h hpc rfl rfl (by simp)
  | abandon n =>
    simp only [stepTask, Option.ite_none_right_eq_some, Option.some.injEq] at hn
    obtain ⟨hpc, rfl⟩ := hn
    exact invariant_same h hpc rfl rfl (by simp)
  | leave n =>
    simp only [stepTask] at hn
    split at hn
    · rename_i enrolled hpc
      obtain rfl := Option.some.inj hn
      cases enrolled with
      | true => exact invariant_leave h hpc (hleak n rfl)
      | false => exact invariant_same h hpc rfl rfl (by simp)
    · cases hn
  | readClock n =>
    simp only [stepTask, Option.ite_none_right_eq_some, Option.some.injEq] at hn
    obtain ⟨hpc, rfl⟩ := hn
    exact invariant_same h hpc rfl rfl (by simp)
  | touch n =>
    simp only [stepTask] at hn
    split at hn
    · rename_i now hpc
      split at hn
      · split at hn
        · rename_i life hlife
          obtain rfl := Option.some.inj hn
          exact invariant_touch h hpc hlife
        · obtain rfl := Option.some.inj hn
          exact invariant_same h hpc rfl rfl (by simp)
      · cases hn
    · cases hn
  | clear n =>
    simp only [stepTask, Option.ite_none_right_eq_some, Option.some.injEq] at hn
    obtain ⟨hpc, rfl⟩ := hn
    obtain ⟨how, hothers, hr⟩ := h.owner (n := n) (by rw [hpc]; rfl)
    refine invariant_goto h rfl ?_ ?_ (shared_jar h.shared hr (by simp [how]))
    · intro m p hm ht
      exact taskOk_jar ht (hothers m p hm ht)
    · exact ⟨fun _ => how, fun _ => Or.inl rfl, by simp, fun _ => rfl, by simp⟩
  | release n =>
    simp only [stepTask, Option.ite_none_right_eq_some, Option.some.injEq] at hn
    obtain ⟨hpc, rfl⟩ := hn
    exact invariant_unlock h (by rw [hpc]; rfl) rfl (by simp) fun _ => (h.task n).cleared hpc
  | write n jar =>
    simp only [stepTask, Option.ite_none_right_eq_some, Option.some.injEq] at hn
    obtain ⟨hpc, rfl⟩ := hn
    obtain ⟨how, hothers, hr⟩ := h.owner (n := n) (by rw [hpc]; rfl)
    refine ⟨?_, shared_jar h.shared hr (by simp [how])⟩
    intro m
    by_cases hm : m = n
    · subst m
      change TaskOk { w with jar := jar } n (w.pc n)
      rw [hpc]
      exact ⟨fun _ => how, fun _ => Or.inl rfl, by simp, by simp, by simp⟩
    · exact taskOk_jar (h.task m) (hothers m (w.pc m) hm (h.task m))
  | beginDrop n =>
    simp only [stepTask, Option.ite_none_right_eq_some, Option.some.injEq] at hn
    obtain ⟨⟨hpc, hfree⟩, rfl⟩ := hn
    exact invariant_beginDrop h hpc hfree
  | unlockJar n =>
    simp only [stepTask, Option.ite_none_right_eq_some, Option.some.injEq] at hn
    obtain ⟨hpc, rfl⟩ := hn
    have hlife := (h.task n).lifeLock (Or.inl hpc)
    refine invariant_unlock h (by rw [hpc]; rfl) rfl (fun _ => hlife) ?_
    intro hret
    exact (h.task n).checked hpc (h.shared.closed (by simp [hret]))
  | endDrop n =>
    simp only [stepTask, Option.ite_none_right_eq_some, Option.some.injEq] at hn
    obtain ⟨hpc, rfl⟩ := hn
    have hlife := (h.task n).lifeLock (Or.inr hpc)
    refine invariant_goto h rfl ?_ ?_ ?_
    · intro m p hm ht
      refine ⟨ht.holder, ht.involved, ?_, ht.cleared, ht.checked⟩
      intro hdrop
      rw [ht.lifeLock hdrop] at hlife
      exact absurd (Option.some.inj hlife) hm
    · exact taskOk_gone (h.not_involved (by rw [hpc]; rfl) (by rw [hpc]; rfl)) rfl (by simp)
    · exact ⟨h.shared.proper, h.shared.closer, h.shared.closerOwns, h.shared.closed,
        h.shared.cleared, h.shared.guarded⟩
  | retire => cases hn
  | tick => cases hn

theorem invariant_tryLock {w : World Cookie} (h : Invariant w) (hr : w.retire = .trying) :
    Invariant (match w.mutex.tryLock .closer with
      | some mutex => { w with mutex := mutex, retire := .clearing }
      | none => { w with retire := .returned }) := by
  have hclosed : w.life.closed = true := h.shared.closed (by simp [hr])
  by_cases hfree : w.mutex.owner = none
  · have hq : w.mutex.queue = [] := h.shared.proper.idle hfree
    simp only [Mutex.tryLock, hfree, ↓reduceIte]
    refine ⟨?_, ?_⟩
    · intro m
      have ht := h.task m
      refine ⟨?_, ?_, ht.lifeLock, ht.cleared, ht.checked⟩
      · intro hp
        rw [ht.holder hp] at hfree
        cases hfree
      · rintro (hin | hin)
        · cases hin
        · simp [hq] at hin
    · exact ⟨Mutex.proper_acquire h.shared.proper hfree .closer,
        by simp [Retire.holds, Mutex.Involves],
        fun _ => rfl, fun _ => hclosed, by simp, by simp⟩
  · simp only [Mutex.tryLock, hfree, ↓reduceIte]
    refine ⟨fun m => ?_, ?_⟩
    · have ht := h.task m
      exact ⟨ht.holder, ht.involved, ht.lifeLock, ht.cleared, ht.checked⟩
    · have hout : ¬ w.mutex.Involves .closer := by
        intro hin
        have := h.shared.closer.mpr hin
        simp [hr, Retire.holds] at this
      exact ⟨h.shared.proper, by simp [Retire.holds, hout], by simp [Retire.holds],
        fun _ => hclosed, by simp, fun _ _ => hfree⟩

theorem invariant_stepRetire {w v : World Cookie} (h : Invariant w)
    (hn : stepRetire w = some v) : Invariant v := by
  have hs := h.shared
  have keep : ∀ r cancelled, r ≠ Retire.idle → r.holds = false → r ≠ .returned →
      w.retire.holds = false → w.life.closed = true →
      Invariant { w with retire := r, cancelled := cancelled } := by
    intro r cancelled _ hr hret hw hclosed
    refine ⟨fun m => ?_, ?_⟩
    · have ht := h.task m
      exact ⟨ht.holder, ht.involved, ht.lifeLock, ht.cleared, ht.checked⟩
    · have hout : ¬ w.mutex.Involves .closer := by
        intro hin
        rw [hs.closer.mpr hin] at hw
        cases hw
      refine ⟨hs.proper, by simp [hr, hout], by simp [hr], fun _ => hclosed, ?_, ?_⟩
      · rintro rfl
        cases hr
      · exact fun hc => absurd hc hret
  unfold stepRetire at hn
  split at hn
  · rename_i hr
    split at hn
    · rename_i hfree
      obtain rfl := Option.some.inj hn
      refine ⟨fun m => ?_, ?_⟩
      · have ht := h.task m
        refine ⟨ht.holder, ht.involved, ht.lifeLock, ht.cleared, ?_⟩
        intro hdrop _
        have hdrop : w.pc m = .dropping := hdrop
        rw [ht.lifeLock (Or.inl hdrop)] at hfree
        cases hfree
      · have hout : ¬ w.mutex.Involves .closer := by
          intro hin
          have := hs.closer.mpr hin
          simp [hr, Retire.holds] at this
        exact ⟨hs.proper, by simp [Retire.holds, hout], by simp [Retire.holds], fun _ => rfl,
          by simp, by simp⟩
    · cases hn
  · rename_i hr
    obtain rfl := Option.some.inj hn
    exact keep .closingClient true (by simp) rfl (by simp) (by rw [hr]; rfl)
      (hs.closed (by simp [hr]))
  · rename_i hr
    obtain rfl := Option.some.inj hn
    exact keep .trying w.cancelled (by simp) rfl (by simp) (by rw [hr]; rfl)
      (hs.closed (by simp [hr]))
  · rename_i hr
    have hstep := invariant_tryLock h hr
    split at hn
    · rename_i mutex hm
      obtain rfl := Option.some.inj hn
      simpa [hm] using hstep
    · rename_i hm
      obtain rfl := Option.some.inj hn
      simpa [hm] using hstep
  · rename_i hr
    obtain rfl := Option.some.inj hn
    have how := hs.closerOwns (by rw [hr]; rfl)
    refine ⟨fun m => ?_, ?_⟩
    · have ht := h.task m
      exact ⟨ht.holder, ht.involved, ht.lifeLock, fun _ => rfl, fun _ _ => rfl⟩
    · have hin := hs.closer.mp (by rw [hr]; rfl)
      exact ⟨hs.proper, by simp [Retire.holds, hin], fun _ => how,
        fun _ => hs.closed (by simp [hr]), fun _ => rfl, by simp⟩
  · rename_i hr
    obtain rfl := Option.some.inj hn
    have how := hs.closerOwns (by rw [hr]; rfl)
    have hclean := hs.cleared hr
    refine ⟨fun m => ?_, ?_⟩
    · have ht := h.task m
      refine ⟨?_, fun hin => ht.involved (Mutex.involves_release hs.proper how hin).1,
        ht.lifeLock, ht.cleared, ht.checked⟩
      intro hp
      have howner := ht.holder hp
      rw [how] at howner
      cases howner
    · have hout : ¬ w.mutex.release.Involves .closer :=
        fun hin => (Mutex.involves_release hs.proper how hin).2 rfl
      exact ⟨Mutex.proper_release hs.proper, by simp [Retire.holds, hout], by simp [Retire.holds],
        fun _ => hs.closed (by simp [hr]), by simp, fun _ hdirty => absurd hclean hdirty⟩
  · cases hn

theorem invariant_step {a : Ages} {w v : World Cookie} {e : Event Cookie} (h : Invariant w)
    (hleak : ∀ n, e = .leave n → ¬ LeakStep w n) (hn : next a w e = some v) : Invariant v := by
  cases e with
  | retire => exact invariant_stepRetire h hn
  | tick elapsed =>
    obtain rfl := Option.some.inj hn
    refine ⟨fun m => ?_, ?_⟩
    · have ht := h.task m
      exact ⟨ht.holder, ht.involved, ht.lifeLock, ht.cleared, ht.checked⟩
    · have hs := h.shared
      exact ⟨hs.proper, hs.closer, hs.closerOwns, hs.closed, hs.cleared, hs.guarded⟩
  | _ => exact invariant_stepTask (a := a) h hleak hn

theorem invariant_initial (created : ℕ) : Invariant (World.initial created : World Cookie) where
  task := fun n =>
    taskOk_gone (by simp [World.initial, Mutex.free, Mutex.Involves]) rfl (fun hq => by cases hq)
  shared := ⟨Mutex.proper_free, by simp [World.initial, Retire.holds, Mutex.free, Mutex.Involves],
    by simp [World.initial, Retire.holds], by simp [World.initial], by simp [World.initial],
    by simp [World.initial]⟩

/-- In every run in which no assigned lock future is dropped as the last one behind a
`retire` that has given up on the mutex, a closed context retains no cookies. -/
theorem closed_jar_empty {a : Ages} {created : ℕ} {es : List (Event Cookie)} {w : World Cookie}
    (hrun : (machine a created).run (.initial created) es = some w)
    (hleak : (machine a created).Along (fun u e _ => ∀ n, e = .leave n → ¬ LeakStep u n)
      (.initial created) es)
    (hq : Quiescent w) : w.jar = .empty := by
  have hinv : Invariant w :=
    Machine.run_preserves_along (P := Invariant) (fun _ _ _ hs hc hn => invariant_step hs hc hn)
      (invariant_initial created) hleak hrun
  by_contra hdirty
  have hbusy := hinv.shared.guarded hq.1 hdirty
  obtain ⟨agent, how⟩ := Option.ne_none_iff_exists'.mp hbusy
  cases agent with
  | task n =>
    have hidle := hq.2 n
    exact hinv.not_involved (by rw [hidle]; rfl) (by rw [hidle]; rfl) (Or.inl how)
  | closer =>
    have hholds := hinv.shared.closer.mpr (Or.inl how)
    rw [hq.1] at hholds
    cases hholds

def defaultAges : Ages := ⟨300000000000, 7200000000000⟩

def clearTrace : List (Event Unit) :=
  [.call 0, .checkCancel 0, .pollLock 0, .readClock 0, .touch 0, .write 0 ⟨[()], []⟩,
    .call 1, .checkCancel 1, .pollLock 1, .beginDrop 0, .unlockJar 0, .endDrop 0, .wake 1,
    .checkCancel 1, .retire, .retire, .retire, .retire, .pollLock 1, .readClock 1, .touch 1,
    .clear 1, .release 1]

theorem closed_jar_empty_handover :
    ∃ w, (machine defaultAges 0).run (.initial 0) clearTrace = some w ∧ Quiescent w ∧
      w.jar = .empty := by
  have hrun : ∃ w, (machine defaultAges 0).run (.initial 0) clearTrace = some w ∧
      Quiescent w := by
    refine ⟨_, rfl, rfl, ?_⟩
    intro n
    match n with
    | 0 => rfl
    | 1 => rfl
    | n + 2 => rfl
  obtain ⟨w, hw, hq⟩ := hrun
  refine ⟨w, hw, hq, closed_jar_empty hw (Machine.along_of_mem ?_) hq⟩
  intro e he u v n hn
  rw [hn] at he
  simp [clearTrace] at he

/-- A guard is dropped while a second task is queued, which assigns the lock to that task.
`retire` finds the mutex taken and returns; the task then prefers the cancellation. -/
def leakTrace : List (Event Unit) :=
  [.call 0, .checkCancel 0, .pollLock 0, .readClock 0, .touch 0, .write 0 ⟨[()], []⟩,
    .call 1, .checkCancel 1, .pollLock 1, .beginDrop 0, .unlockJar 0, .endDrop 0,
    .retire, .retire, .retire, .retire, .wake 1, .checkCancel 1, .leave 1]

theorem retired_jar_keeps_cookie :
    ¬ ∀ w : World Unit, (machine defaultAges 0).Reachable w → Quiescent w → w.jar = .empty := by
  intro h
  have hrun : ∃ w, (machine defaultAges 0).run (.initial 0) leakTrace = some w ∧
      Quiescent w ∧ w.jar = ⟨[()], []⟩ := by
    refine ⟨_, rfl, ⟨rfl, ?_⟩, rfl⟩
    intro n
    match n with
    | 0 => rfl
    | 1 => rfl
    | n + 2 => rfl
  obtain ⟨w, hw, hq, hjar⟩ := hrun
  have hempty := h w ⟨_, hw⟩ hq
  rw [hjar] at hempty
  cases hempty

end JarLock
