import Ja3Proxy.ContextLifetime
import Ja3Proxy.TransitionRuns
import Mathlib.Data.List.Pairwise

/-! The checks of one context's lifetime (`src/contexts.rs`). `touch`, `cleanup` and the final
check of `absorb` and `cookies` read the clock before they take the lifetime lock;
`ManagedGuard::drop` reads it under the lock. The log of verdicts is a ghost. -/
namespace ContextDeath

open ContextLifetime TransitionRuns

variable {Cookie : Type}

inductive Check where
  | get
  /-- The first line of `cookie_access`. -/
  | access
  | lockJar
  /-- The first line of `absorb`. -/
  | absorb
  /-- `expired(Instant::now())` at the end of `absorb` and `cookies`. -/
  | settle
  | cleanup
  | dropGuard
  deriving DecidableEq, Repr

def Check.touches : Check → Bool
  | .get | .access | .lockJar | .absorb => true
  | _ => false

structure Verdict where
  check : Check
  now : ℕ
  live : Bool
  deriving DecidableEq, Repr

/-- What the ghost log holds, the newest entry first. -/
inductive Note where
  | verdict (v : Verdict)
  | cleared
  deriving DecidableEq, Repr

inductive Pc where
  | idle
  /-- `Instant::now()` is next. -/
  | reading (c : Check)
  /-- The lifetime lock is next. -/
  | judging (c : Check) (now : ℕ)
  /-- `get` and `cleanup` found the context live and hold the registry lock. -/
  | returning
  /-- `cleanup` has read the clock and waits for the registry lock. -/
  | sweeping (now : ℕ)
  | retiring
  | trying
  /-- In `lock_jar`, waiting for the jar. -/
  | waiting
  | evicting
  | leaving
  | holding
  /-- `absorb` after its `touch`. -/
  | absorbing
  | clearing
  | dropping
  | unlocked
  deriving DecidableEq, Repr

structure World (Cookie : Type) where
  life : Lifetime
  /-- The task whose `ManagedGuard::drop` holds the lifetime lock. -/
  lifeLock : Option ℕ
  clock : ℕ
  /-- The context is in the registry. -/
  listed : Bool
  registryLock : Option ℕ
  jarLock : Option ℕ
  jar : List Cookie
  pc : ℕ → Pc
  log : List Note

def World.initial (created : ℕ) : World Cookie where
  life := ⟨created, created, false⟩
  lifeLock := none
  clock := created
  listed := true
  registryLock := none
  jarLock := none
  jar := []
  pc := fun _ => .idle
  log := []

def World.goto (w : World Cookie) (n : ℕ) (pc : Pc) : World Cookie :=
  { w with pc := Function.update w.pc n pc }

inductive Event (Cookie : Type) where
  | tick (elapsed : ℕ)
  | get (n : ℕ)
  /-- `cookie_access` of a managed context. -/
  | access (n : ℕ)
  /-- `lock_jar` as `cookies` calls it. -/
  | lockJar (n : ℕ)
  | acquire (n : ℕ)
  /-- The wait for the jar ends by cancellation, or its future is dropped. -/
  | giveUp (n : ℕ)
  | read (n : ℕ)
  | judge (n : ℕ)
  | evict (n : ℕ)
  | unlock (n : ℕ)
  | absorb (n : ℕ)
  /-- `absorb` stores the cookies of a response. -/
  | store (n : ℕ) (jar : List Cookie)
  /-- `absorb` finds no cookie, or fails to store one. -/
  | skip (n : ℕ)
  /-- A cookie command takes effect on the jar. -/
  | command (n : ℕ) (jar : List Cookie)
  | clear (n : ℕ)
  | dropGuard (n : ℕ)
  | unlockJar (n : ℕ)
  | endDrop (n : ℕ)
  | cleanup (n : ℕ)
  | enter (n : ℕ)
  | close (n : ℕ)
  | mark (n : ℕ)
  | tryClear (n : ℕ)
  | leave (n : ℕ)

def Check.after : Check → Bool → Pc
  | .get, true | .cleanup, true => .returning
  | .get, false | .cleanup, false => .retiring
  | .access, true => .waiting
  | .access, false => .idle
  | .lockJar, true => .holding
  | .lockJar, false => .evicting
  | .absorb, true => .absorbing
  | .absorb, false => .holding
  | .settle, true => .holding
  | .settle, false => .clearing
  | .dropGuard, _ => .dropping

def judged (a : Ages) (c : Check) (l : Lifetime) (now : ℕ) : Lifetime :=
  if c.touches then (l.touch a now).getD l else l

/-- The critical section of `touch` and `expired`. -/
def judge (a : Ages) (w : World Cookie) (n : ℕ) (c : Check) (now : ℕ) : World Cookie :=
  { w with
    life := judged a c w.life now
    log := .verdict ⟨c, now, !w.life.dead a now⟩ :: w.log }.goto n (c.after (!w.life.dead a now))

/-- `ManagedGuard::drop` up to the release of the jar. -/
def dropGuard (a : Ages) (w : World Cookie) (n : ℕ) : World Cookie :=
  if w.life.dead a w.clock then
    { w with
      lifeLock := some n
      jar := []
      log := .cleared :: .verdict ⟨.dropGuard, w.clock, false⟩ :: w.log }.goto n .dropping
  else
    { w with
      lifeLock := some n
      log := .verdict ⟨.dropGuard, w.clock, true⟩ :: w.log }.goto n .dropping

/-- `retire` after it has marked the context. It never waits for the jar. -/
def tryClear (w : World Cookie) (n : ℕ) : World Cookie :=
  if w.jarLock = none then
    { w with
      listed := false, registryLock := none, jar := [], log := .cleared :: w.log }.goto n .idle
  else { w with listed := false, registryLock := none }.goto n .idle

def registryStep (w : World Cookie) : Event Cookie → Option (World Cookie)
  | .get n =>
    if w.pc n = .idle ∧ w.registryLock = none ∧ w.listed then
      some ({ w with registryLock := some n }.goto n (.reading .get))
    else none
  | .cleanup n => if w.pc n = .idle then some (w.goto n (.sweeping w.clock)) else none
  | .enter n =>
    match w.pc n with
    | .sweeping now =>
      if w.registryLock = none then
        if w.listed then
          some ({ w with registryLock := some n }.goto n (.judging .cleanup now))
        else some (w.goto n .idle)
      else none
    | _ => none
  | .close n =>
    if w.pc n = .idle ∧ w.registryLock = none ∧ w.listed then
      some ({ w with registryLock := some n }.goto n .retiring)
    else none
  | .mark n =>
    if w.pc n = .retiring ∧ w.lifeLock = none then
      some ({ w with life := { w.life with closed := true } }.goto n .trying)
    else none
  | .tryClear n => if w.pc n = .trying then some (tryClear w n) else none
  | .leave n =>
    if w.pc n = .returning then some ({ w with registryLock := none }.goto n .idle) else none
  | _ => none

def jarStep (a : Ages) (w : World Cookie) : Event Cookie → Option (World Cookie)
  | .access n => if w.pc n = .idle then some (w.goto n (.reading .access)) else none
  | .lockJar n => if w.pc n = .idle then some (w.goto n .waiting) else none
  | .acquire n =>
    if w.pc n = .waiting ∧ w.jarLock = none then
      some ({ w with jarLock := some n }.goto n (.reading .lockJar))
    else none
  | .giveUp n => if w.pc n = .waiting then some (w.goto n .idle) else none
  | .evict n =>
    if w.pc n = .evicting then
      some ({ w with jar := [], log := .cleared :: w.log }.goto n .leaving)
    else none
  | .unlock n =>
    if w.pc n = .leaving then some ({ w with jarLock := none }.goto n .idle) else none
  | .absorb n => if w.pc n = .holding then some (w.goto n (.reading .absorb)) else none
  | .store n jar =>
    if w.pc n = .absorbing then some ({ w with jar := jar }.goto n (.reading .settle)) else none
  | .skip n => if w.pc n = .absorbing then some (w.goto n .holding) else none
  | .command n jar =>
    if w.pc n = .holding then some ({ w with jar := jar }.goto n (.reading .settle)) else none
  | .clear n =>
    if w.pc n = .clearing then
      some ({ w with jar := [], log := .cleared :: w.log }.goto n .holding)
    else none
  | .dropGuard n =>
    if w.pc n = .holding ∧ w.lifeLock = none then some (dropGuard a w n) else none
  | .unlockJar n =>
    if w.pc n = .dropping then some ({ w with jarLock := none }.goto n .unlocked) else none
  | .endDrop n =>
    if w.pc n = .unlocked then some ({ w with lifeLock := none }.goto n .idle) else none
  | _ => none

def operate (a : Ages) (w : World Cookie) (e : Event Cookie) : Option (World Cookie) :=
  match registryStep w e with
  | some v => some v
  | none => jarStep a w e

def next (a : Ages) (w : World Cookie) : Event Cookie → Option (World Cookie)
  | .tick elapsed => some { w with clock := w.clock + elapsed }
  | .read n =>
    match w.pc n with
    | .reading c => some (w.goto n (.judging c w.clock))
    | _ => none
  | .judge n =>
    match w.pc n with
    | .judging c now => if w.lifeLock = none then some (judge a w n c now) else none
    | _ => none
  | e => operate a w e

def machine (a : Ages) (created : ℕ) : Machine (World Cookie) (Event Cookie) :=
  ⟨.initial created, next a⟩

def Note.live : Note → Bool
  | .verdict v => v.live
  | .cleared => false

def Final (log : List Note) : Prop :=
  log.Pairwise fun newer older => older.live = false → newer.live = false

instance (log : List Note) : Decidable (Final log) :=
  inferInstanceAs (Decidable (List.Pairwise _ _))

def Pc.clockRead : Pc → Option ℕ
  | .judging _ now | .sweeping now => some now
  | _ => none

def Note.expiredAfter (now : ℕ) : Note → Bool
  | .verdict v => !v.live && now < v.now
  | .cleared => false

/-- Task `n` is about to check a context that nobody has closed, with a clock value from before
the deadline that is older than the one of an expiry verdict. -/
def Straddles (a : Ages) (w : World Cookie) (n : ℕ) : Prop :=
  ∃ now ∈ (w.pc n).clockRead, w.life.closed = false ∧ now - w.life.created < deadline a w.life ∧
    ∃ note ∈ w.log, note.expiredAfter now = true

instance (a : Ages) (w : World Cookie) (n : ℕ) : Decidable (Straddles a w n) :=
  inferInstanceAs (Decidable (∃ now ∈ (w.pc n).clockRead, _ ∧ _ ∧ ∃ note ∈ w.log, _))

def Ordered (a : Ages) (w : World Cookie) : Event Cookie → Prop
  | .judge n => ¬ Straddles a w n
  | _ => True

instance (a : Ages) (w : World Cookie) : ∀ e, Decidable (Ordered a w e)
  | .judge n => inferInstanceAs (Decidable (¬ Straddles a w n))
  | .tick _ | .get _ | .access _ | .lockJar _ | .acquire _ | .giveUp _ | .read _ | .evict _
  | .unlock _ | .absorb _ | .store _ _ | .skip _ | .command _ _ | .clear _ | .dropGuard _
  | .unlockJar _ | .endDrop _ | .cleanup _ | .enter _ | .close _ | .mark _ | .tryClear _
  | .leave _ => isTrue trivial

def Ended (l : Lifetime) (log : List Note) : Prop :=
  l.closed = true ∨ ∃ v, .verdict v ∈ log ∧ v.live = false

structure Sealed (a : Ages) (l : Lifetime) (log : List Note) (clock : ℕ) : Prop where
  readings : ∀ v, .verdict v ∈ log → v.now ≤ clock
  expired : ∀ v, .verdict v ∈ log → v.live = false →
    l.closed = true ∨ deadline a l ≤ v.now - l.created
  cleared : .cleared ∈ log → Ended l log
  final : Final log

variable {a : Ages} {l : Lifetime} {log : List Note} {clock now : ℕ} {c : Check}

theorem dead_iff : l.dead a now = true ↔ l.closed = true ∨ deadline a l ≤ now - l.created := by
  simp [Lifetime.dead]

theorem live_iff :
    l.dead a now = false ↔ l.closed = false ∧ now - l.created < deadline a l := by
  simp [Lifetime.dead]

theorem Ended.cons (h : Ended l log) (note : Note) : Ended l (note :: log) := by
  rcases h with hc | ⟨v, hv, hd⟩
  · exact .inl hc
  · exact .inr ⟨v, List.mem_cons_of_mem _ hv, hd⟩

theorem Sealed.later (h : Sealed a l log clock) {later : ℕ} (hle : clock ≤ later) :
    Sealed a l log later :=
  ⟨fun v hv => Nat.le_trans (h.readings v hv) hle, h.expired, h.cleared, h.final⟩

theorem Sealed.ended (h : Sealed a l log clock) {note : Note} (hn : note ∈ log)
    (hlive : note.live = false) : Ended l log := by
  cases note with
  | verdict v => exact .inr ⟨v, hn, hlive⟩
  | cleared => exact h.cleared hn

theorem Sealed.dead_verdict (h : Sealed a l log clock) (hnow : now ≤ clock)
    (hdead : l.dead a now = true) : Sealed a l (.verdict ⟨c, now, false⟩ :: log) clock where
  readings := by
    intro v hv
    rcases List.mem_cons.mp hv with hv | hv
    · cases hv
      exact hnow
    · exact h.readings v hv
  expired := by
    intro v hv hlive
    rcases List.mem_cons.mp hv with hv | hv
    · cases hv
      exact dead_iff.mp hdead
    · exact h.expired v hv hlive
  cleared := fun _ => .inr ⟨_, List.mem_cons_self, rfl⟩
  final := List.pairwise_cons.mpr ⟨fun _ _ _ => rfl, h.final⟩

theorem Sealed.clear (h : Sealed a l log clock) (he : Ended l log) :
    Sealed a l (.cleared :: log) clock where
  readings := fun v hv => h.readings v (by simpa using hv)
  expired := fun v hv => h.expired v (by simpa using hv)
  cleared := fun _ => he.cons _
  final := List.pairwise_cons.mpr ⟨fun _ _ _ => rfl, h.final⟩

theorem Sealed.close (h : Sealed a l log clock) : Sealed a { l with closed := true } log clock :=
  ⟨h.readings, fun _ _ _ => .inl rfl, fun _ => .inl rfl, h.final⟩

/-- Where a check finds the context live without straddling, nobody has found it dead. -/
theorem Sealed.nothing_dead (h : Sealed a l log clock) (hlive : l.dead a now = false)
    (hord : ∀ note ∈ log, note.expiredAfter now = false) : ∀ note ∈ log, note.live = true := by
  obtain ⟨hopen, hearly⟩ := live_iff.mp hlive
  intro note hn
  by_contra hdead
  rcases h.ended hn (by simpa using hdead) with hc | ⟨v, hv, hd⟩
  · cases hopen.symm.trans hc
  · have hafter := hord _ hv
    simp only [Note.expiredAfter, hd, Bool.not_false, Bool.true_and, decide_eq_false_iff_not,
      Nat.not_lt] at hafter
    rcases h.expired v hv hd with hc | hpassed
    · cases hopen.symm.trans hc
    · omega

theorem Sealed.live_verdict (h : Sealed a l log clock) (hnow : now ≤ clock)
    (hlive : ∀ note ∈ log, note.live = true) (m : Lifetime) :
    Sealed a m (.verdict ⟨c, now, true⟩ :: log) clock where
  readings := by
    intro v hv
    rcases List.mem_cons.mp hv with hv | hv
    · cases hv
      exact hnow
    · exact h.readings v hv
  expired := by
    intro v hv hd
    rcases List.mem_cons.mp hv with hv | hv
    · cases hv
      cases hd
    · cases (hlive _ hv).symm.trans hd
  cleared := by
    intro hc
    cases hlive .cleared (by simpa using hc)
  final := by
    refine List.pairwise_cons.mpr ⟨?_, h.final⟩
    intro note hn hd
    cases (hlive note hn).symm.trans hd

def Pc.owes : Pc → Bool
  | .evicting | .clearing | .trying => true
  | _ => false

variable {w v : World Cookie} {e : Event Cookie} {n : ℕ}

structure Pc.Sound (l : Lifetime) (log : List Note) (clock : ℕ) (pc : Pc) : Prop where
  reading : ∀ now ∈ pc.clockRead, now ≤ clock
  owes : pc.owes = true → Ended l log

structure Effect (w v : World Cookie) (l : Lifetime) (log : List Note) : Prop where
  life : v.life = l
  log : v.log = log
  clock : w.clock ≤ v.clock
  pc : ∀ m, v.pc m = w.pc m ∨ (v.pc m).Sound v.life v.log v.clock

theorem sound_plain {pc : Pc} (hread : pc.clockRead = none) (howes : pc.owes = false) :
    pc.Sound l log clock :=
  ⟨by simp [hread], by simp [howes]⟩

theorem effect_goto {u : World Cookie} {pc : Pc} (hpc : u.pc = w.pc) (hclock : u.clock = w.clock)
    (h : pc.Sound u.life u.log u.clock) : Effect w (u.goto n pc) u.life u.log where
  life := rfl
  log := rfl
  clock := Nat.le_of_eq hclock.symm
  pc := by
    intro m
    by_cases hm : m = n
    · right
      have hgoto : (u.goto n pc).pc m = pc := by simp [World.goto, hm]
      rw [hgoto]
      exact h
    · left
      simp [World.goto, hm, hpc]

theorem sound_after (c : Check) (live : Bool) :
    (c.after live).Sound l (.verdict ⟨c, now, live⟩ :: log) clock := by
  refine ⟨by cases c <;> cases live <;> simp [Check.after, Pc.clockRead], ?_⟩
  intro howes
  cases live with
  | true => cases c <;> cases howes
  | false => exact .inr ⟨_, List.mem_cons_self, rfl⟩

def Effects (a : Ages) (w : World Cookie) (e : Event Cookie) (v : World Cookie) : Prop :=
  Effect w v w.life w.log ∨
  (∃ n c now, e = .judge n ∧ w.pc n = .judging c now ∧
    Effect w v (judged a c w.life now) (.verdict ⟨c, now, !w.life.dead a now⟩ :: w.log)) ∨
  (w.life.dead a w.clock = true ∧
    Effect w v w.life (.cleared :: .verdict ⟨.dropGuard, w.clock, false⟩ :: w.log)) ∨
  (w.life.dead a w.clock = false ∧
    Effect w v w.life (.verdict ⟨.dropGuard, w.clock, true⟩ :: w.log)) ∨
  (Ended w.life w.log ∧ Effect w v w.life (.cleared :: w.log)) ∨
  Effect w v { w.life with closed := true } w.log

theorem effects_quiet (h : Effect w v w.life w.log) : Effects a w e v := .inl h

/-- A guarded step that moves one task and touches neither the lifetime nor the log. -/
theorem effects_of_guard {P : Prop} [Decidable P] {u : World Cookie} {pc : Pc}
    (h : (if P then some (u.goto n pc) else none) = some v) (hpc : u.pc = w.pc)
    (hlife : u.life = w.life) (hlog : u.log = w.log) (hclock : u.clock = w.clock)
    (hread : pc.clockRead = none) (howes : pc.owes = false) : Effects a w e v := by
  simp only [Option.ite_none_right_eq_some, Option.some.injEq] at h
  obtain ⟨-, rfl⟩ := h
  have heffect := effect_goto (n := n) hpc hclock (sound_plain hread howes)
  rw [hlife, hlog] at heffect
  exact effects_quiet heffect

theorem effects_clear (he : Ended w.life w.log) (h : Effect w v w.life (.cleared :: w.log)) :
    Effects a w e v := .inr (.inr (.inr (.inr (.inl ⟨he, h⟩))))

theorem registryStep_effects (hs : ∀ m, (w.pc m).Sound w.life w.log w.clock)
    (h : registryStep w e = some v) : Effects a w e v := by
  cases e with
  | get n => exact effects_of_guard h rfl rfl rfl rfl rfl rfl
  | cleanup n =>
    simp only [registryStep, Option.ite_none_right_eq_some, Option.some.injEq] at h
    obtain ⟨-, rfl⟩ := h
    refine effects_quiet (effect_goto rfl rfl ⟨?_, by simp [Pc.owes]⟩)
    intro now hnow
    cases hnow
    exact Nat.le_refl _
  | enter n =>
    simp only [registryStep] at h
    split at h
    · next now hpc =>
      split at h
      · split at h
        · cases h
          have hn := hs n
          rw [hpc] at hn
          exact effects_quiet (effect_goto rfl rfl ⟨hn.reading, by simp [Pc.owes]⟩)
        · cases h
          exact effects_quiet (effect_goto rfl rfl (sound_plain rfl rfl))
      · cases h
    · cases h
  | close n => exact effects_of_guard h rfl rfl rfl rfl rfl rfl
  | mark n =>
    simp only [registryStep, Option.ite_none_right_eq_some, Option.some.injEq] at h
    obtain ⟨-, rfl⟩ := h
    refine .inr (.inr (.inr (.inr (.inr ?_))))
    exact effect_goto rfl rfl ⟨by simp [Pc.clockRead], fun _ => .inl rfl⟩
  | tryClear n =>
    simp only [registryStep, Option.ite_none_right_eq_some, Option.some.injEq] at h
    obtain ⟨hpc, rfl⟩ := h
    unfold tryClear
    split
    · have he : Ended w.life w.log := (hs n).owes (by rw [hpc]; rfl)
      exact effects_clear he (effect_goto rfl rfl (sound_plain rfl rfl))
    · exact effects_quiet (effect_goto rfl rfl (sound_plain rfl rfl))
  | leave n => exact effects_of_guard h rfl rfl rfl rfl rfl rfl
  | _ => cases h

theorem jarStep_effects (hs : ∀ m, (w.pc m).Sound w.life w.log w.clock)
    (h : jarStep a w e = some v) : Effects a w e v := by
  cases e with
  | access n => exact effects_of_guard h rfl rfl rfl rfl rfl rfl
  | lockJar n => exact effects_of_guard h rfl rfl rfl rfl rfl rfl
  | acquire n => exact effects_of_guard h rfl rfl rfl rfl rfl rfl
  | giveUp n => exact effects_of_guard h rfl rfl rfl rfl rfl rfl
  | evict n =>
    simp only [jarStep, Option.ite_none_right_eq_some, Option.some.injEq] at h
    obtain ⟨hpc, rfl⟩ := h
    have he : Ended w.life w.log := (hs n).owes (by rw [hpc]; rfl)
    exact effects_clear he (effect_goto rfl rfl (sound_plain rfl rfl))
  | unlock n => exact effects_of_guard h rfl rfl rfl rfl rfl rfl
  | absorb n => exact effects_of_guard h rfl rfl rfl rfl rfl rfl
  | store n jar => exact effects_of_guard h rfl rfl rfl rfl rfl rfl
  | skip n => exact effects_of_guard h rfl rfl rfl rfl rfl rfl
  | command n jar => exact effects_of_guard h rfl rfl rfl rfl rfl rfl
  | clear n =>
    simp only [jarStep, Option.ite_none_right_eq_some, Option.some.injEq] at h
    obtain ⟨hpc, rfl⟩ := h
    have he : Ended w.life w.log := (hs n).owes (by rw [hpc]; rfl)
    exact effects_clear he (effect_goto rfl rfl (sound_plain rfl rfl))
  | dropGuard n =>
    simp only [jarStep, Option.ite_none_right_eq_some, Option.some.injEq] at h
    obtain ⟨-, rfl⟩ := h
    unfold dropGuard
    split
    · next hdead =>
      exact .inr (.inr (.inl ⟨hdead, effect_goto rfl rfl (sound_plain rfl rfl)⟩))
    · next hlive =>
      have hlive : w.life.dead a w.clock = false := by simpa using hlive
      exact .inr (.inr (.inr (.inl ⟨hlive, effect_goto rfl rfl (sound_plain rfl rfl)⟩)))
  | unlockJar n => exact effects_of_guard h rfl rfl rfl rfl rfl rfl
  | endDrop n => exact effects_of_guard h rfl rfl rfl rfl rfl rfl
  | _ => cases h

theorem operate_effects (hs : ∀ m, (w.pc m).Sound w.life w.log w.clock)
    (h : operate a w e = some v) : Effects a w e v := by
  unfold operate at h
  split at h
  · next hr =>
    cases h
    exact registryStep_effects hs hr
  · exact jarStep_effects hs h

theorem next_effects (hs : ∀ m, (w.pc m).Sound w.life w.log w.clock) (h : next a w e = some v) :
    Effects a w e v := by
  cases e with
  | tick elapsed =>
    cases h
    exact effects_quiet ⟨rfl, rfl, Nat.le_add_right _ _, fun _ => .inl rfl⟩
  | read n =>
    simp only [next] at h
    split at h
    · cases h
      refine effects_quiet (effect_goto rfl rfl ⟨?_, by simp [Pc.owes]⟩)
      intro now hnow
      cases hnow
      exact Nat.le_refl _
    · cases h
  | judge n =>
    simp only [next] at h
    split at h
    · next c now hpc =>
      split at h
      · cases h
        exact .inr (.inl ⟨n, c, now, rfl, hpc, effect_goto rfl rfl (sound_after c _)⟩)
      · cases h
    · cases h
  | _ => exact operate_effects hs h

theorem judged_closed (a : Ages) (c : Check) (l : Lifetime) (now : ℕ) :
    (judged a c l now).closed = l.closed := by
  unfold judged Lifetime.touch
  split
  · split <;> rfl
  · rfl

theorem judged_dead (c : Check) (h : l.dead a now = true) : judged a c l now = l := by
  unfold judged Lifetime.touch
  simp [h]

structure Grows (w v : World Cookie) : Prop where
  log : w.log <:+ v.log
  closed : w.life.closed = true → v.life.closed = true
  clock : w.clock ≤ v.clock
  pc : ∀ m, v.pc m = w.pc m ∨ (v.pc m).Sound v.life v.log v.clock

theorem Effect.grows {l : Lifetime} {log : List Note} (h : Effect w v l log)
    (hlog : w.log <:+ log) (hclosed : w.life.closed = true → l.closed = true) : Grows w v where
  log := h.log ▸ hlog
  closed := h.life ▸ hclosed
  clock := h.clock
  pc := h.pc

theorem Effects.grows (h : Effects a w e v) : Grows w v := by
  rcases h with heffect | ⟨n, c, now, -, -, heffect⟩ | ⟨-, heffect⟩ | ⟨-, heffect⟩ |
    ⟨-, heffect⟩ | heffect
  · exact heffect.grows List.suffix_rfl id
  · exact heffect.grows (List.suffix_cons _ _) fun hc => (judged_closed a c w.life now).trans hc
  · exact heffect.grows ((List.suffix_cons _ _).trans (List.suffix_cons _ _)) id
  · exact heffect.grows (List.suffix_cons _ _) id
  · exact heffect.grows (List.suffix_cons _ _) id
  · exact heffect.grows List.suffix_rfl fun _ => rfl

def TasksSound (w : World Cookie) : Prop := ∀ n, (w.pc n).Sound w.life w.log w.clock

theorem Grows.ended (h : Grows w v) (he : Ended w.life w.log) : Ended v.life v.log := by
  rcases he with hc | ⟨x, hx, hd⟩
  · exact .inl (h.closed hc)
  · exact .inr ⟨x, h.log.subset hx, hd⟩

theorem Grows.sound (h : Grows w v) (hs : TasksSound w) : TasksSound v := by
  intro n
  rcases h.pc n with hsame | hsound
  · have hold := hs n
    rw [hsame]
    exact ⟨fun now hnow => Nat.le_trans (hold.reading now hnow) h.clock,
      fun howes => h.ended (hold.owes howes)⟩
  · exact hsound

structure Invariant (a : Ages) (w : World Cookie) : Prop where
  verdicts : Sealed a w.life w.log w.clock
  tasks : TasksSound w

theorem tasksSound_initial (created : ℕ) : TasksSound (World.initial created : World Cookie) :=
  fun _ => sound_plain rfl rfl

theorem Invariant.initial (created : ℕ) : Invariant a (World.initial created : World Cookie) where
  verdicts := ⟨by simp [World.initial], by simp [World.initial], by simp [World.initial], .nil⟩
  tasks := tasksSound_initial created

theorem Effect.sealed {l : Lifetime} {log : List Note} (h : Effect w v l log)
    (hsealed : Sealed a l log w.clock) : Sealed a v.life v.log v.clock := by
  rw [h.life, h.log]
  exact hsealed.later h.clock

theorem next_sealed (hw : Invariant a w) (hord : Ordered a w e) (h : Effects a w e v) :
    Sealed a v.life v.log v.clock := by
  rcases h with heffect | ⟨n, c, now, rfl, hpc, heffect⟩ | ⟨hdead, heffect⟩ |
    ⟨hlive, heffect⟩ | ⟨hended, heffect⟩ | heffect
  · exact heffect.sealed hw.verdicts
  · have hnow : now ≤ w.clock := (hw.tasks n).reading now (by rw [hpc]; rfl)
    cases hdead : w.life.dead a now with
    | true =>
      rw [judged_dead c hdead, hdead] at heffect
      exact heffect.sealed (hw.verdicts.dead_verdict hnow hdead)
    | false =>
      obtain ⟨hopen, hearly⟩ := live_iff.mp hdead
      have hquiet : ∀ note ∈ w.log, note.expiredAfter now = false := by
        intro note hn
        by_contra hafter
        exact hord ⟨now, by rw [hpc]; rfl, hopen, hearly, note, hn, by simpa using hafter⟩
      rw [hdead] at heffect
      exact heffect.sealed
        (hw.verdicts.live_verdict hnow (hw.verdicts.nothing_dead hdead hquiet) _)
  · exact heffect.sealed ((hw.verdicts.dead_verdict (Nat.le_refl _) hdead).clear
      (.inr ⟨_, List.mem_cons_self, rfl⟩))
  · -- The guard's reading is the newest of all, so no verdict has a newer one.
    have hquiet : ∀ note ∈ w.log, note.expiredAfter w.clock = false := by
      intro note hn
      cases note with
      | cleared => rfl
      | verdict x =>
        have hle := hw.verdicts.readings x hn
        simp only [Note.expiredAfter, Bool.and_eq_false_iff, decide_eq_false_iff_not]
        exact .inr (Nat.not_lt.mpr hle)
    exact heffect.sealed
      (hw.verdicts.live_verdict (Nat.le_refl _) (hw.verdicts.nothing_dead hlive hquiet) _)
  · exact heffect.sealed (hw.verdicts.clear hended)
  · exact heffect.sealed hw.verdicts.close

theorem next_invariant (hw : Invariant a w) (hord : Ordered a w e) (h : next a w e = some v) :
    Invariant a v := by
  have heffects := next_effects hw.tasks h
  exact ⟨next_sealed hw hord heffects, heffects.grows.sound hw.tasks⟩

/-- A check that straddles the deadline judges a dead context live. -/
theorem not_final_of_straddles (hs : Straddles a w n) (h : next a w (.judge n) = some v) :
    ¬ Final v.log := by
  obtain ⟨now, hread, hopen, hearly, note, hnote, hafter⟩ := hs
  simp only [next] at h
  split at h
  · next c now' hpc =>
    rw [hpc] at hread
    cases hread
    split at h
    · cases h
      intro hfinal
      have hlive : w.life.dead a now = false := live_iff.mpr ⟨hopen, hearly⟩
      have hdead : note.live = false := by
        cases note with
        | cleared => cases hafter
        | verdict x =>
          simp only [Note.expiredAfter, Bool.and_eq_true, Bool.not_eq_true'] at hafter
          exact hafter.1
      have hfirst := (List.pairwise_cons.mp hfinal).1 note hnote hdead
      simp [Note.live, hlive] at hfirst
    · cases h
  · cases h

theorem final_of_suffix {old new : List Note} (h : old <:+ new) (hf : Final new) : Final old :=
  List.Pairwise.sublist h.sublist hf

theorem run_log {created : ℕ} {es : List (Event Cookie)} (hs : TasksSound w)
    (h : (machine a created).run w es = some v) : w.log <:+ v.log := by
  refine (Machine.run_preserves (P := fun u => TasksSound u ∧ w.log <:+ u.log) ?_
    ⟨hs, List.suffix_rfl⟩ h).2
  intro s e t hst ht
  have hgrows := (next_effects hst.1 ht).grows
  exact ⟨hgrows.sound hst.1, hst.2.trans hgrows.log⟩

theorem ordered_of_final {created : ℕ} {es : List (Event Cookie)} (hs : TasksSound w)
    (h : (machine a created).run w es = some v) (hf : Final v.log) :
    (machine a created).Along (fun u e _ => Ordered a u e) w es := by
  induction es generalizing w with
  | nil => trivial
  | cons e es ih =>
    intro t ht
    obtain ⟨u, hu, hrest⟩ := Machine.run_cons_iff _ |>.mp h
    cases hu.symm.trans ht
    have hsound := (next_effects hs ht).grows.sound hs
    refine ⟨?_, ih hsound hrest⟩
    cases e with
    | judge n =>
      intro hstraddles
      exact not_final_of_straddles hstraddles ht (final_of_suffix (run_log hsound hrest) hf)
    | _ => trivial

/-- Death is final in exactly the runs in which no check straddles the deadline. -/
theorem death_final_iff {a : Ages} {created : ℕ} {es : List (Event Cookie)} {w : World Cookie}
    (h : (machine a created).run (.initial created) es = some w) :
    Final w.log ↔
      (machine a created).Along (fun u e _ => Ordered a u e) (.initial created) es := by
  constructor
  · exact ordered_of_final (tasksSound_initial created) h
  · intro hord
    have hinv : Invariant a w :=
      Machine.run_preserves_along (P := Invariant a) (fun _ _ _ hs hc hn => next_invariant hs hc hn)
        (Invariant.initial created) hord h
    exact hinv.verdicts.final

private def idleOut : List (Event String) :=
  [.get 0, .read 0, .judge 0, .leave 0, .lockJar 0, .acquire 0, .read 0, .judge 0,
    .command 0 ["sid"], .read 0, .judge 0, .tick 9]

private def lateGet : List (Event String) :=
  idleOut ++ [.tick 1, .dropGuard 0, .unlockJar 0, .endDrop 0, .get 1, .read 1, .judge 1]

theorem death_final_iff_late_get :
    ∃ w, (machine ⟨10, 100⟩ 0).run (.initial 0) lateGet = some w ∧ .cleared ∈ w.log ∧
      Final w.log := by
  have hrun : ∃ w, (machine ⟨10, 100⟩ 0).run (.initial 0) lateGet = some w ∧ .cleared ∈ w.log :=
    ⟨_, rfl, by decide⟩
  obtain ⟨w, hw, hcleared⟩ := hrun
  exact ⟨w, hw, hcleared, (death_final_iff hw).mpr (by decide)⟩

/-- Task 1 reads the clock just before the deadline and takes the lock just after it: the
cleared jar is served again. -/
theorem cleared_jar_served :
    ¬ ∀ w : World String, (machine ⟨10, 100⟩ 0).Reachable w → Final w.log := by
  intro h
  have hrun : ∃ w, (machine ⟨10, 100⟩ 0).run (.initial 0)
      (idleOut ++ [.get 1, .read 1, .tick 1, .dropGuard 0, .unlockJar 0, .endDrop 0, .judge 1,
        .leave 1, .lockJar 1, .acquire 1, .read 1, .judge 1]) = some w ∧
      w.pc 1 = .holding ∧ w.jar = [] ∧ ¬ Final w.log :=
    ⟨_, rfl, rfl, rfl, by decide⟩
  obtain ⟨w, hw, -, -, hnot⟩ := hrun
  exact hnot (h w ⟨_, hw⟩)

end ContextDeath
