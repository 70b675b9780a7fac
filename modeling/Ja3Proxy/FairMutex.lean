import Mathlib.Data.List.Nodup

/-! A fair asynchronous mutex. Releasing it while somebody waits assigns it to the first
waiter, who is the owner from then on even if it has not noticed yet. -/
namespace FairMutex

variable {τ : Type*}

structure Mutex (τ : Type*) where
  owner : Option τ
  queue : List τ
  deriving DecidableEq

namespace Mutex

def free : Mutex τ := ⟨none, []⟩

/-- The first poll of a lock future: take the free mutex or join the queue. -/
def request (m : Mutex τ) (t : τ) : Mutex τ :=
  if m.owner = none then { m with owner := some t } else { m with queue := m.queue ++ [t] }

def tryLock (m : Mutex τ) (t : τ) : Option (Mutex τ) :=
  if m.owner = none then some { m with owner := some t } else none

def release (m : Mutex τ) : Mutex τ := ⟨m.queue.head?, m.queue.tail⟩

/-- Dropping a lock future: an assigned lock passes on, a waiter leaves the queue. -/
def withdraw [DecidableEq τ] (m : Mutex τ) (t : τ) : Mutex τ :=
  if m.owner = some t then m.release else { m with queue := m.queue.filter (· ≠ t) }

def Involves (m : Mutex τ) (t : τ) : Prop := m.owner = some t ∨ t ∈ m.queue

structure Proper (m : Mutex τ) : Prop where
  idle : m.owner = none → m.queue = []
  owner_once : ∀ t, m.owner = some t → t ∉ m.queue
  nodup : m.queue.Nodup

theorem proper_free : (free : Mutex τ).Proper := ⟨fun _ => rfl, by simp [free], List.nodup_nil⟩

theorem proper_release {m : Mutex τ} (h : m.Proper) : m.release.Proper := by
  obtain ⟨owner, queue⟩ := m
  cases queue with
  | nil => exact ⟨fun _ => rfl, by simp [release], List.nodup_nil⟩
  | cons a queue =>
    obtain ⟨ha, hq⟩ := List.nodup_cons.mp h.nodup
    refine ⟨by simp [release], ?_, hq⟩
    intro t ht
    obtain rfl : a = t := by simpa [release] using ht
    exact ha

theorem proper_acquire {m : Mutex τ} (h : m.Proper) (hfree : m.owner = none) (t : τ) :
    ({ m with owner := some t } : Mutex τ).Proper :=
  ⟨by simp, by simp [h.idle hfree], h.nodup⟩

theorem proper_request {m : Mutex τ} {t : τ} (h : m.Proper) (ht : ¬ m.Involves t) :
    (m.request t).Proper := by
  unfold request
  split
  · rename_i hfree
    exact proper_acquire h hfree t
  · rename_i hbusy
    refine ⟨fun hn => absurd hn hbusy, ?_, ?_⟩
    · intro u hu hmem
      rcases List.mem_append.mp hmem with hmem | hmem
      · exact h.owner_once u hu hmem
      · rw [List.mem_singleton.mp hmem] at hu
        exact ht (Or.inl hu)
    · rw [List.nodup_append]
      refine ⟨h.nodup, List.nodup_singleton t, ?_⟩
      intro a ha b hb hab
      rw [List.mem_singleton.mp hb] at hab
      exact ht (Or.inr (hab ▸ ha))

theorem proper_withdraw [DecidableEq τ] {m : Mutex τ} {t : τ} (h : m.Proper) :
    (m.withdraw t).Proper := by
  unfold withdraw
  split
  · exact proper_release h
  · refine ⟨?_, ?_, h.nodup.filter _⟩
    · intro hn
      simp [h.idle hn]
    · intro u hu hmem
      exact h.owner_once u hu (List.mem_of_mem_filter hmem)

/-- Who is left after the owner released. -/
theorem involves_release {m : Mutex τ} {t u : τ} (h : m.Proper) (ht : m.owner = some t)
    (hu : m.release.Involves u) : m.Involves u ∧ u ≠ t := by
  have hmem : u ∈ m.queue := by
    rcases hu with hu | hu
    · exact List.mem_of_head? hu
    · exact List.mem_of_mem_tail hu
  refine ⟨Or.inr hmem, ?_⟩
  rintro rfl
  exact h.owner_once u ht hmem

theorem involves_request {m : Mutex τ} {t u : τ} (h : (m.request t).Involves u) :
    m.Involves u ∨ u = t := by
  unfold request at h
  split at h
  · rcases h with h | h
    · exact Or.inr (Option.some.inj h).symm
    · exact Or.inl (Or.inr h)
  · rcases h with h | h
    · exact Or.inl (Or.inl h)
    · rcases List.mem_append.mp h with h | h
      · exact Or.inl (Or.inr h)
      · exact Or.inr (List.mem_singleton.mp h)

theorem involves_withdraw [DecidableEq τ] {m : Mutex τ} {t u : τ} (h : m.Proper)
    (hu : (m.withdraw t).Involves u) : m.Involves u ∧ u ≠ t := by
  unfold withdraw at hu
  split at hu
  · rename_i ht
    exact involves_release h ht hu
  · rename_i ht
    rcases hu with hu | hu
    · refine ⟨Or.inl hu, ?_⟩
      rintro rfl
      exact ht hu
    · obtain ⟨hmem, hne⟩ := List.mem_filter.mp hu
      exact ⟨Or.inr hmem, by simpa using hne⟩

theorem owner_request {m : Mutex τ} {t u : τ} (h : m.owner = some u) :
    (m.request t).owner = some u := by
  simp [request, h]

theorem owner_withdraw [DecidableEq τ] {m : Mutex τ} {t u : τ} (h : m.owner = some u)
    (hne : u ≠ t) : (m.withdraw t).owner = some u := by
  simp [withdraw, h, hne]

end Mutex

end FairMutex
