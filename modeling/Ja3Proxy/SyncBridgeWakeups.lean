import Ja3Proxy.SyncBridgeSteps

/-! No reply is slept through: a main thread that sleeps has no packet in its port whose sender has
come to the end of `reply`. -/
namespace SyncBridgeWakeups

open SdkErrors SyncBridge SyncBridgeSteps

variable {α : Type} {s t : State α}

def seen : Main → Option (BitVec 32)
  | .checked _ g | .passed _ g | .waiting _ g => some g
  | _ => none

def loaded : Main → Option (BitVec 32)
  | .loaded _ g => some g
  | _ => none

/-- The word was loaded when it stood at `n`; a packet whose sender has gone on to the `add` came
with a later one. -/
structure Wakeful (s : State α) : Prop where
  asleep : ∀ p, s.main = .asleep p → ∀ q ∈ s.toMain, q.mark ≠ .notified
  loaded : ∀ g, loaded s.main = some g → ∃ n ≤ s.adds, g = BitVec.ofNat 32 n
  seen : ∀ g, seen s.main = some g → ∃ n ≤ s.adds, g = BitVec.ofNat 32 n ∧
    (s.adds = n → ∀ q ∈ s.toMain, q.mark = .posted)

theorem Wakeful.congr (h : Wakeful s) (hmain : t.main = s.main) (hadds : t.adds = s.adds)
    (hport : t.toMain = s.toMain) : Wakeful t := by
  constructor
  · rw [hmain, hport]
    exact h.asleep
  · rw [hmain, hadds]
    exact h.loaded
  · rw [hmain, hadds, hport]
    exact h.seen

/-- A main thread that is not in `#receive`, or at its beginning. -/
theorem wakeful_of_outside (hasleep : ∀ p, s.main ≠ .asleep p) (hloaded : loaded s.main = none)
    (hseen : seen s.main = none) : Wakeful s := by
  constructor
  · exact fun p hp => absurd hp (hasleep p)
  · intro g hg
    rw [hloaded] at hg
    cases hg
  · intro g hg
    rw [hseen] at hg
    cases hg

theorem wakeful_idle (h : s.main = .idle) : Wakeful s := by
  apply wakeful_of_outside
  · simp [h]
  · simp [h, loaded]
  · simp [h, seen]

theorem wakeful_loading {p : Pending} (h : s.main = .loading p) : Wakeful s := by
  apply wakeful_of_outside
  · simp [h]
  · simp [h, loaded]
  · simp [h, seen]

/-- A main thread that found no message comes nearer to the wait. -/
theorem Wakeful.onward {m : Main} {g : BitVec 32} (h : Wakeful s)
    (hs : SyncBridgeWakeups.seen s.main = some g) (hm : SyncBridgeWakeups.seen m = some g) :
    Wakeful { s with main := m } := by
  constructor
  · rintro p rfl
    cases hm
  · intro g' hg'
    cases m <;> cases hg'
    cases hm
  · intro g' hg'
    cases hm.symm.trans hg'
    exact h.seen g hs

/-- Fewer than `2 ^ 32` additions do not come back to an old word. -/
theorem adds_eq_of_generation {n : ℕ} (hw : s.adds < 2 ^ 32) (hle : n ≤ s.adds)
    (h : s.generation = BitVec.ofNat 32 n) : s.adds = n := by
  have hnat : s.adds % 2 ^ 32 = n % 2 ^ 32 := by
    simpa [State.generation] using congrArg BitVec.toNat h
  have hn : n < 2 ^ 32 := Nat.lt_of_le_of_lt hle hw
  rw [Nat.mod_eq_of_lt hw, Nat.mod_eq_of_lt hn] at hnat
  exact hnat

theorem wakeful_wait {p : Pending} {g : BitVec 32} (h : Wakeful s) (hw : s.adds < 2 ^ 32)
    (hmain : s.main = .waiting p g) : Wakeful (s.wait p g) := by
  obtain ⟨n, hle, hg, hposted⟩ := h.seen g (by simp [hmain, seen])
  rw [State.wait]
  split
  · rename_i hsame
    have hn : s.adds = n := adds_eq_of_generation hw hle (hsame.trans hg)
    constructor
    · intro p' _ q hq
      rw [hposted hn q hq]
      simp
    · intro g' hg'
      cases hg'
    · intro g' hg'
      cases hg'
  · exact wakeful_loading rfl

theorem wakeful_main {e : Event α} (h : Wakeful s) (hw : s.adds < 2 ^ 32)
    (hn : mainNext s e = some t) : Wakeful t := by
  cases e with
  | call op cloned =>
    simp only [mainNext] at hn
    split at hn
    · rename_i hidle
      cases hn
      simp only [State.call]
      split
      · exact wakeful_idle rfl
      · split
        · exact wakeful_idle rfl
        · split
          · exact wakeful_loading rfl
          · exact wakeful_idle rfl
    · cases hn
  | load =>
    simp only [mainNext] at hn
    split at hn
    · cases hn
      constructor
      · intro p hp
        cases hp
      · intro g hg
        cases hg
        exact ⟨s.adds, Nat.le_refl _, rfl⟩
      · intro g hg
        cases hg
    · cases hn
  | receive =>
    simp only [mainNext] at hn
    split at hn
    · rename_i p g hmain
      cases hn
      simp only [State.receive]
      split
      · rename_i hempty
        obtain ⟨n, hle, hg⟩ := h.loaded g (by simp [hmain, loaded])
        constructor
        · intro p' hp'
          cases hp'
        · intro g' hg'
          cases hg'
        · intro g' hg'
          cases hg'
          refine ⟨n, hle, hg, ?_⟩
          intro _ q hq
          change q ∈ s.toMain at hq
          rw [hempty] at hq
          cases hq
      · exact wakeful_idle (accept_main _ _ _)
    · cases hn
  | checkFailure =>
    simp only [mainNext] at hn
    split at hn
    · rename_i p g hmain
      cases hn
      simp only [State.checkFailure]
      split
      · exact wakeful_idle rfl
      · exact h.onward (by rw [hmain]; rfl) rfl
    · cases hn
  | checkDeadline expired =>
    simp only [mainNext] at hn
    split at hn
    · rename_i p g hmain
      cases hn
      simp only [State.checkDeadline]
      split
      · exact wakeful_idle rfl
      · exact h.onward (by rw [hmain]; rfl) rfl
    · cases hn
  | wait =>
    simp only [mainNext] at hn
    split at hn
    · rename_i p g hmain
      cases hn
      exact wakeful_wait h hw hmain
    · cases hn
  | waitEnds =>
    simp only [mainNext] at hn
    split at hn
    · cases hn
      exact wakeful_loading rfl
    · cases hn
  | workerGone exited =>
    simp only [mainNext] at hn
    split at hn
    · rename_i hmain hdead
      cases hn
      exact wakeful_idle hmain
    · cases hn
  | _ => cases hn

/-- An `add` overtakes every generation that was loaded before it. -/
theorem wakeful_add (h : Wakeful s) (hmain : t.main = s.main) (hadds : t.adds = s.adds + 1)
    (hport : ∀ q ∈ t.toMain, q.mark = .notified → ∃ r ∈ s.toMain, r.mark = .notified) :
    Wakeful t := by
  constructor
  · intro p hp q hq hnotified
    rw [hmain] at hp
    obtain ⟨r, hr, hmark⟩ := hport q hq hnotified
    exact h.asleep p hp r hr hmark
  · intro g hg
    rw [hmain] at hg
    obtain ⟨n, hle, hn⟩ := h.loaded g hg
    exact ⟨n, by omega, hn⟩
  · intro g hg
    rw [hmain] at hg
    obtain ⟨n, hle, hn, _⟩ := h.seen g hg
    refine ⟨n, by omega, hn, ?_⟩
    intro heq
    omega

theorem wake_not_asleep (s : State α) (p : Pending) : s.wake.main ≠ .asleep p := by
  intro h
  rw [State.wake] at h
  split at h
  · cases h
  · rename_i hmain
    exact hmain p h

theorem wake_loaded (s : State α) : loaded s.wake.main = loaded s.main := by
  rw [State.wake]
  split
  · rename_i p hmain
    simp [hmain, loaded]
  · rfl

theorem wake_seen (s : State α) : seen s.wake.main = seen s.main := by
  rw [State.wake]
  split
  · rename_i p hmain
    simp [hmain, seen]
  · rfl

/-- A `notify` leaves nobody asleep. -/
theorem wakeful_wake (h : Wakeful s) (hmain : t.main = s.wake.main) (hadds : t.adds = s.adds)
    (hport : (∀ q ∈ s.toMain, q.mark = .posted) → ∀ q ∈ t.toMain, q.mark = .posted) :
    Wakeful t := by
  constructor
  · intro p hp
    rw [hmain] at hp
    exact absurd hp (wake_not_asleep s p)
  · rw [hmain, hadds, wake_loaded]
    exact h.loaded
  · rw [hmain, hadds, wake_seen]
    intro g hg
    obtain ⟨n, hle, hn, hposted⟩ := h.seen g hg
    exact ⟨n, hle, hn, fun heq => hport (hposted heq)⟩

theorem wakeful_post (h : Wakeful s) (hmain : t.main = s.main) (hadds : t.adds = s.adds)
    {q : Packet α} (hq : q.mark = .posted) (hport : t.toMain = s.toMain ++ [q]) : Wakeful t := by
  have hmem : ∀ r ∈ t.toMain, r ∈ s.toMain ∨ r.mark = .posted := by
    intro r hr
    rw [hport] at hr
    rcases List.mem_append.mp hr with hold | hnew
    · exact .inl hold
    · rw [List.mem_singleton.mp hnew]
      exact .inr hq
  constructor
  · intro p hp r hr
    rw [hmain] at hp
    rcases hmem r hr with hold | hposted
    · exact h.asleep p hp r hold
    · simp [hposted]
  · rw [hmain, hadds]
    exact h.loaded
  · rw [hmain, hadds]
    intro g hg
    obtain ⟨n, hle, hn, hposted⟩ := h.seen g hg
    refine ⟨n, hle, hn, fun heq r hr => ?_⟩
    exact (hmem r hr).elim (hposted heq r) id

theorem mark_mem {before after : Mark} {q : Packet α} (h : q ∈ (s.mark before after).toMain) :
    ∃ r ∈ s.toMain, q = if r.mark = before then { r with mark := after } else r := by
  obtain ⟨r, hr, rfl⟩ := List.mem_map.mp h
  exact ⟨r, hr, rfl⟩

theorem wakeful_worker {e : Event α} (h : Wakeful s) (hn : workerNext s e = some t) :
    Wakeful t := by
  cases e with
  | start r =>
    simp only [workerNext] at hn
    split at hn
    · cases hn
      cases r with
      | ok v => exact h.congr rfl rfl rfl
      | error e => exact h.congr rfl rfl rfl
    · cases hn
  | take valid =>
    have htaken : ∀ (u : State α) c, Wakeful u → Wakeful (u.take valid c) := by
      intro u c hu
      simp only [State.take]
      split
      · exact hu.congr rfl rfl rfl
      · split
        · exact hu.congr rfl rfl rfl
        · exact hu.congr rfl rfl rfl
    simp only [workerNext] at hn
    split at hn
    · cases hn
      exact htaken _ _ (h.congr rfl rfl rfl)
    · cases hn
      exact htaken _ _ (h.congr rfl rfl rfl)
    · cases hn
  | complete r =>
    simp only [workerNext] at hn
    split at hn
    · cases hn
      cases r with
      | ok v => exact h.congr rfl rfl rfl
      | error e => exact h.congr rfl rfl rfl
    · cases hn
  | post cloned =>
    simp only [workerNext] at hn
    split at hn
    · rename_i id r after hworker
      cases hn
      simp only [State.post]
      split
      · exact wakeful_post h rfl rfl rfl rfl
      · split
        · exact h.congr rfl rfl rfl
        · exact h.congr rfl rfl rfl
    · cases hn
  | add =>
    simp only [workerNext] at hn
    split at hn
    · cases hn
      refine wakeful_add h rfl rfl ?_
      intro q hq hnotified
      obtain ⟨r, hr, rfl⟩ := mark_mem hq
      refine ⟨r, hr, ?_⟩
      split at hnotified
      · cases hnotified
      · exact hnotified
    · cases hn
      exact wakeful_add h rfl rfl (fun q hq hnotified => ⟨q, hq, hnotified⟩)
    · cases hn
  | notify =>
    have hmarked : (∀ q ∈ s.toMain, q.mark = .posted) →
        ∀ q ∈ (s.mark .added .notified).toMain, q.mark = .posted := by
      intro hall q hq
      obtain ⟨r, hr, rfl⟩ := mark_mem hq
      rw [if_neg (by simp [hall r hr])]
      exact hall r hr
    simp only [workerNext] at hn
    split at hn
    · cases hn
      rw [wake_eq]
      exact wakeful_wake h (wake_mark s _ _) rfl hmarked
    · cases hn
      rw [wake_eq]
      exact wakeful_wake h (wake_mark s _ _) rfl hmarked
    · cases hn
      rw [wake_eq]
      exact wakeful_wake h rfl rfl id
    · cases hn
  | clear =>
    simp only [workerNext] at hn
    split at hn
    · cases hn
      exact h.congr rfl rfl rfl
    · cases hn
  | stop =>
    simp only [workerNext] at hn
    split at hn
    · cases hn
      exact h.congr rfl rfl rfl
    · cases hn
      exact h.congr rfl rfl rfl
    · cases hn
  | fatal =>
    simp only [workerNext] at hn
    split at hn
    · cases hn
      exact h.congr rfl rfl rfl
    · cases hn
      exact h.congr rfl rfl rfl
    · cases hn
  | die =>
    cases hn
    exact h.congr rfl rfl rfl
  | stray notify =>
    simp only [workerNext] at hn
    split at hn
    · cases hn
      split
      · rw [wake_eq]
        exact wakeful_wake h rfl rfl id
      · exact wakeful_add h rfl rfl (fun q hq hnotified => ⟨q, hq, hnotified⟩)
    · cases hn
  | _ => cases hn

end SyncBridgeWakeups
