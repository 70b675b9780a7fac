import Mathlib.Data.List.Basic

/-! `Lifetime` of `concurrency.ts`: the operations in progress, and a close that takes a snapshot
of them, waits for it or for a timer, and then aborts what is registered at that moment. -/
namespace OperationLifetime

/-- A running close: its snapshot, when its timer fires and whether the abort loop has run. -/
structure Closing (α : Type) where
  pending : List α
  expires : ℕ
  swept : Bool

structure Lifetime (α : Type) where
  operations : List α
  closed : Bool
  closing : Option (Closing α)

variable {α : Type}

namespace Lifetime

def initial : Lifetime α := ⟨[], false, none⟩

def Open (l : Lifetime α) : Prop := l.closed = false ∧ l.closing = none

def stopAccepting (l : Lifetime α) : Lifetime α := { l with closed := true }

def register (l : Lifetime α) (op : α) : Lifetime α := { l with operations := l.operations ++ [op] }

/-- `begin` is `track` without `alreadyAccepted`; `none` is the error `client_closed`. -/
def track (l : Lifetime α) (op : α) (alreadyAccepted : Bool) : Option (Lifetime α) :=
  if l.closed && !alreadyAccepted then none else some (l.register op)

/-- A close without `drain` has a timer that fires at once. -/
def close (l : Lifetime α) (expires : ℕ) : Lifetime α :=
  match l.closing with
  | some _ => l
  | none => { l with closed := true, closing := some ⟨l.operations, expires, false⟩ }

def sweep (l : Lifetime α) : Lifetime α :=
  { l with closing := l.closing.map fun c => { c with swept := true } }

variable {l l' : Lifetime α} {op : α}

theorem track_open (h : l.closed = false) (b : Bool) : l.track op b = some (l.register op) := by
  simp [track, h]

theorem track_closed (h : l.closed = true) : l.track op false = none := by
  simp [track, h]

theorem track_some {b : Bool} (h : l.track op b = some l') : l' = l.register op := by
  unfold track at h
  split at h
  · cases h
  · cases h
    rfl

variable [DecidableEq α]

def done (l : Lifetime α) (op : α) : Lifetime α :=
  { l with operations := l.operations.filter (· != op) }

/-- `Promise.all` of the snapshot has resolved. -/
def settled (l : Lifetime α) (c : Closing α) : Bool :=
  c.pending.all fun op => !l.operations.contains op

/-- The race of the snapshot with the timer is over, and the abort loop comes next. -/
def due (l : Lifetime α) (now : ℕ) : Bool :=
  l.closing.any fun c => !c.swept && (Nat.ble c.expires now || l.settled c)

def stopped (l : Lifetime α) : Bool := l.closing.any fun c => c.swept && l.settled c

theorem due_open (h : l.Open) (now : ℕ) : l.due now = false := by
  simp [due, h.2]

theorem mem_done {other : α} (h : other ∈ l.operations) (hne : other ≠ op) :
    other ∈ (l.done op).operations := by
  simp [done, h, hne]

/-- What is registered and in the snapshot keeps the snapshot from settling. -/
theorem not_settled {c : Closing α} (hpending : op ∈ c.pending) (hmem : op ∈ l.operations) :
    l.settled c = false := by
  rw [Bool.eq_false_iff]
  intro h
  have hgone := List.all_eq_true.mp h op hpending
  simp [hmem] at hgone

end Lifetime

end OperationLifetime
